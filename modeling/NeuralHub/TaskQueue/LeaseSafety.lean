/-
NeuralHub.TaskQueue.LeaseSafety — does recovery spare live workers?

A worker holds a task from its claim until its lease runs out. `Grants`
records this as a history variable of the run: each time a row goes from
PENDING to RUNNING a grant is made out to the worker in the row, and while
the row stays RUNNING the newest grant's lease follows the row, which is
how a heartbeat extends it.

`recover_stale_task_payloads` finds the stale rows in one transaction and
`_requeue_stale_task` rewrites each of them, unseen, in a later one. The
snapshot was stale when it was taken (`PointOk`), the row need not be any
more: `recovery_races_heartbeat` renews the lease in between.

`spares_iff_seesSnapshot` reduces both halves of the promise to what the
`UPDATE` would have to compare: at every requeue the row still has the
snapshot's status and worker, and the snapshot's lease or another stale
one. Under it all grants of a pending row have expired, so a new claim
never overlaps an old one. Whether the row is still the snapshot depends on
the other processes only: `Undisturbed` says that no `renew_lease`,
`complete`, `fail`, `cancel`, `claim` or requeue changes a row between the
listing and its requeue, and `recovery_spares_live_workers` that this is
enough in every interleaving.
-/
import NeuralHub.TaskQueue.PersistedTheorems

namespace NeuralHub.TaskQueue.Persisted

open NeuralHub.Lib

variable {δ : Type}

/-- The snapshot `_requeue_stale_task` is about to rewrite. -/
def requeueSnapshot : Point δ → Op δ → Option (TaskPayload δ)
  | .recoverEach (p :: _) _, .next => if p.retryCount < p.maxRetries then some p else none
  | _, _ => none

/-- At a requeue the row still is what the snapshot said, or is stale again
in the same hands. -/
def requeueSeesSnapshot (s : Sys δ) : Action δ → Bool
  | .tick _ => true
  | .op i o =>
      (requeueSnapshot (s.points i) o).all fun p =>
        (s.rows.find p.taskId).any fun row =>
          decide (row.status = p.status) && decide (row.workerId = p.workerId) &&
            (decide (row.leaseExpiresAt = p.leaseExpiresAt) || row.staleRunning s.now)

/-- At a requeue the row is RUNNING with an expired lease, and held by the
worker of the snapshot. -/
def requeueTakesExpired (s : Sys δ) : Action δ → Prop
  | .tick _ => True
  | .op i o =>
      ∀ p, requeueSnapshot (s.points i) o = some p →
        ∃ row, s.rows.find p.taskId = some row ∧ row.staleRunning s.now = true ∧
          row.workerId = p.workerId

/-! ## Grants -/

/-- A task made out to a worker until `lease`. -/
structure Grant where
  worker : String
  lease : Int
  deriving DecidableEq, Repr

/-- Every task's grants, newest first. -/
abbrev Grants := String → List Grant

def Grant.expired (now : Int) (g : Grant) : Bool := decide (0 < g.lease) && decide (g.lease < now)

/-- The grant a running row stands for. -/
def rowGrant (p : TaskPayload δ) : Grant := ⟨p.workerId, p.leaseExpiresAt⟩

/-- A row that starts to run is granted; a row that keeps running carries
its newest grant along. -/
def recordGrant (old new : Option (TaskPayload δ)) (gs : List Grant) : List Grant :=
  match old, new with
  | some p, some q =>
      if q.status ≠ .running then gs
      else if p.status = .running then rowGrant q :: gs.tail
      else rowGrant q :: gs
  | _, _ => gs

/-- The persisted queue with its grants. -/
def granting (ns : String) : Machine (Sys δ × Grants) (Action δ) :=
  (machine ns).withHistory
    (fun s _ s' g t => recordGrant (s.rows.find t) (s'.rows.find t) (g t))

/-- No two grants of one task are both unexpired. -/
def AtMostOneHolder (now : Int) (g : Grants) : Prop :=
  ∀ t, ((g t).filter (fun x => !x.expired now)).length ≤ 1

/-- What recovery promises in a run from a fresh start: it takes expired
leases only, and no task ever has two holders. -/
def RecoverySparesLiveWorkers (ns : String) (now : Int) (as : List (Action δ)) : Prop :=
  (machine ns).Meets requeueTakesExpired (init now) as ∧
    ∀ pre post s g, as = pre ++ post →
      (granting ns).run (init now, fun _ => []) pre = some (s, g) → AtMostOneHolder s.now g

/-! ## What the points hold -/

/-- Batches about to be inserted are pending; snapshots about to be
recovered were stale when they were listed. -/
def PointOk (now : Int) : Point δ → Prop
  | .manyInsert ps => ∀ p ∈ ps, p.status = .pending
  | .recoverEach todo _ => ∀ p ∈ todo, p.staleRunning now = true
  | .recoverPush _ todo _ => ∀ p ∈ todo, p.staleRunning now = true
  | _ => True

theorem staleRunning_mono {p : TaskPayload δ} {now now' : Int} (h : now ≤ now')
    (hp : p.staleRunning now = true) : p.staleRunning now' = true := by
  rw [TaskPayload.staleRunning_iff] at hp ⊢
  exact ⟨hp.1, hp.2.1, Int.lt_of_lt_of_le hp.2.2 h⟩

theorem PointOk.mono {pt : Point δ} {now now' : Int} (h : now ≤ now') (hpt : PointOk now pt) :
    PointOk now' pt := by
  cases pt with
  | recoverEach todo n => exact fun p hp => staleRunning_mono h (hpt p hp)
  | recoverPush p todo n => exact fun p hp => staleRunning_mono h (hpt p hp)
  | _ => exact hpt

theorem start_pointOk {ns : String} {i : Nat} {s s' : Shared δ} {pt : Point δ} {o : Op δ}
    (h : start ns i s o = some (s', pt)) : s'.now = s.now ∧ PointOk s.now pt := by
  cases o with
  | submit spec =>
    obtain ⟨u, hu, heq⟩ := Option.map_eq_some_iff.mp h
    cases heq
    rw [commitSave_eq_some hu]
    exact ⟨rfl, trivial⟩
  | submitMany specs n =>
    simp only [start] at h
    split at h
    · cases h
      exact ⟨rfl, trivial⟩
    · obtain ⟨_, _, hnow, rfl | ⟨v, rfl⟩⟩ := openCapacity_frame h
      · refine ⟨hnow, fun p hp => ?_⟩
        obtain ⟨spec, _, rfl⟩ := List.mem_map.mp hp
        rfl
      · exact ⟨hnow, trivial⟩
  | complete t r w =>
    obtain ⟨u, hu, heq⟩ := Option.map_eq_some_iff.mp h
    cases heq
    rw [commitRow_eq_some hu]
    exact ⟨rfl, trivial⟩
  | fail t e w =>
    obtain ⟨u, hu, heq⟩ := Option.map_eq_some_iff.mp h
    cases heq
    rw [commitRow_eq_some hu]
    exact ⟨rfl, trivial⟩
  | renewLease t extra =>
    obtain ⟨u, hu, heq⟩ := Option.map_eq_some_iff.mp h
    cases heq
    rw [commitRow_eq_some hu]
    exact ⟨rfl, trivial⟩
  | cancel t =>
    simp only [start] at h
    split at h
    · cases h
      exact ⟨rfl, trivial⟩
    · split at h
      · cases h
        exact ⟨rfl, trivial⟩
      · split at h <;> cases h <;> exact ⟨rfl, trivial⟩
  | claim w => cases h; exact ⟨rfl, trivial⟩
  | recover order =>
    simp only [start] at h
    split at h
    · cases h
      exact ⟨rfl, fun p hp => (List.mem_filter.mp hp).2⟩
    · cases h
  | wait ids timeout =>
    simp only [start] at h
    split at h <;> cases h <;> exact ⟨rfl, trivial⟩
  | next => cases h
  | raise c => cases h

theorem resume_pointOk {i : Nat} {s s' : Shared δ} {pt pt' : Point δ} (hpt : PointOk s.now pt)
    (h : resume i s pt = some (s', pt')) : s'.now = s.now ∧ PointOk s.now pt' := by
  cases pt with
  | idle v => cases h
  | submitPush p => cases h; exact ⟨rfl, trivial⟩
  | manyInsert ps =>
    simp only [resume] at h
    split at h <;> cases h <;> exact ⟨rfl, trivial⟩
  | manyPush ps todo => cases todo <;> cases h <;> exact ⟨rfl, trivial⟩
  | claimPop w =>
    simp only [resume] at h
    split at h <;> cases h <;> exact ⟨rfl, trivial⟩
  | claimRow w t =>
    simp only [resume] at h
    split at h
    · split at h <;> cases h <;> exact ⟨rfl, trivial⟩
    · cases h
      exact ⟨rfl, trivial⟩
  | cancelRemove p => cases h; exact ⟨rfl, trivial⟩
  | cancelSave p =>
    obtain ⟨u, hu, heq⟩ := Option.map_eq_some_iff.mp h
    cases heq
    rw [commitSave_eq_some hu]
    exact ⟨rfl, trivial⟩
  | recoverEach todo n =>
    cases todo with
    | nil => cases h; exact ⟨rfl, trivial⟩
    | cons p todo =>
      have htodo : ∀ x ∈ todo, x.staleRunning s.now = true := fun x hx =>
        hpt x (List.mem_cons_of_mem _ hx)
      simp only [resume] at h
      split at h
      · obtain ⟨u, hu, heq⟩ := Option.map_eq_some_iff.mp h
        cases heq
        rw [commitSave_eq_some hu]
        exact ⟨rfl, htodo⟩
      · obtain ⟨u, hu, heq⟩ := Option.map_eq_some_iff.mp h
        cases heq
        rw [commitRow_eq_some hu]
        exact ⟨rfl, htodo⟩
  | recoverPush p todo n => cases h; exact ⟨rfl, hpt⟩
  | waitRead ids deadline todo statuses =>
    cases todo with
    | nil =>
      simp only [resume] at h
      split at h
      · cases h; exact ⟨rfl, trivial⟩
      · split at h <;> cases h <;> exact ⟨rfl, trivial⟩
    | cons t todo => cases h; exact ⟨rfl, trivial⟩
  | waitFail now todo final =>
    cases todo with
    | nil => cases h; exact ⟨rfl, trivial⟩
    | cons read todo =>
      obtain ⟨t, _ | p⟩ := read
      · cases h; exact ⟨rfl, trivial⟩
      · simp only [resume] at h
        split at h
        · cases h; exact ⟨rfl, trivial⟩
        · split at h
          · cases h; exact ⟨rfl, trivial⟩
          · obtain ⟨u, hu, heq⟩ := Option.map_eq_some_iff.mp h
            cases heq
            rw [commitRow_eq_some hu]
            exact ⟨rfl, trivial⟩
  | waitRefresh now t p todo final => cases h; exact ⟨rfl, trivial⟩

theorem raiseClaim_pointOk {i : Nat} {s s' : Shared δ} {pt pt' : Point δ} {c : Bool}
    (h : raiseClaim i s c pt = some (s', pt')) : s'.now = s.now ∧ PointOk s.now pt' := by
  unfold raiseClaim at h
  split at h
  · split at h <;> cases h <;> exact ⟨rfl, trivial⟩
  · cases h

/-- A step of a process leaves the clock alone and the process at a good point. -/
theorem stepPoint_pointOk {ns : String} {i : Nat} {s s' : Shared δ} {pt pt' : Point δ} {o : Op δ}
    (hpt : PointOk s.now pt) (h : stepPoint ns i s pt o = some (s', pt')) :
    s'.now = s.now ∧ PointOk s.now pt' := by
  by_cases hn : o = .next
  · subst hn
    exact resume_pointOk hpt h
  · by_cases hr : ∃ c, o = .raise c
    · obtain ⟨c, rfl⟩ := hr
      exact raiseClaim_pointOk h
    · exact start_pointOk (stepPoint_start hn (fun c hc => hr ⟨c, hc⟩) h).2

/-- Every process is at a good point. -/
def PointsOk (s : Sys δ) : Prop := ∀ i, PointOk s.now (s.points i)

theorem pointsOk_step {ns : String} {s s' : Sys δ} {a : Action δ} (h : PointsOk s)
    (hstep : step ns s a = some s') : s.now ≤ s'.now ∧ PointsOk s' := by
  cases a with
  | tick d =>
    obtain ⟨hd, rfl⟩ := step_tick hstep
    have hle : s.now ≤ s.now + d := by omega
    exact ⟨hle, fun i => (h i).mono hle⟩
  | op i o =>
    obtain ⟨pt, hpt, hpts⟩ := step_op hstep
    obtain ⟨hnow, hok⟩ := stepPoint_pointOk (h i) hpt
    refine ⟨Int.le_of_eq hnow.symm, fun j => ?_⟩
    rw [hnow, hpts]
    by_cases hj : j = i
    · subst hj
      rw [Function.update_self]
      exact hok
    · rw [Function.update_of_ne hj]
      exact h j

theorem pointsOk_init (now : Int) : PointsOk (init now : Sys δ) := fun _ => trivial

theorem staleRunning_of_requeueSnapshot {now : Int} {pt : Point δ} {o : Op δ}
    {p : TaskPayload δ} (hpt : PointOk now pt) (h : requeueSnapshot pt o = some p) :
    p.staleRunning now = true := by
  unfold requeueSnapshot at h
  split at h
  · split at h <;> cases h
    exact hpt p (List.mem_cons_self ..)
  · cases h

/-- With the snapshot stale, seeing it unchanged is taking an expired lease. -/
theorem requeueSeesSnapshot_iff {s : Sys δ} (hs : PointsOk s) (a : Action δ) :
    requeueSeesSnapshot s a = true ↔ requeueTakesExpired s a := by
  cases a with
  | tick d => simp [requeueSeesSnapshot, requeueTakesExpired]
  | op i o =>
    simp only [requeueSeesSnapshot, requeueTakesExpired, Option.all_eq_true, Option.any_eq_true,
      Bool.and_eq_true, Bool.or_eq_true, decide_eq_true_eq]
    refine forall₂_congr fun p hp => exists_congr fun row => and_congr_right fun _ => ?_
    have hstale := staleRunning_of_requeueSnapshot (hs i) hp
    simp only [TaskPayload.staleRunning_iff] at hstale ⊢
    constructor
    · rintro ⟨⟨hst, hw⟩, hlease | hrow⟩
      · exact ⟨⟨hst.trans hstale.1, hlease ▸ hstale.2.1, hlease ▸ hstale.2.2⟩, hw⟩
      · exact ⟨hrow, hw⟩
    · rintro ⟨hrow, hw⟩
      exact ⟨⟨hrow.1.trans hstale.1.symm, hw⟩, Or.inr hrow⟩

/-! ## One step of one row -/

/-- The grants of a row, by its status: a pending row has expired grants
only; a running row's newest grant is the row's own; older grants have
expired in any case. -/
structure RowGranted (now : Int) (row : Option (TaskPayload δ)) (gs : List Grant) : Prop where
  fresh : row = none → gs = []
  pending : ∀ p, row = some p → p.status = .pending → ∀ x ∈ gs, x.expired now = true
  running : ∀ p, row = some p → p.status = .running → gs.head? = some (rowGrant p)
  tail : ∀ x ∈ gs.tail, x.expired now = true

/-- The fields for a row that exists. -/
theorem RowGranted.of_row {now : Int} {q : TaskPayload δ} {gs : List Grant}
    (hpending : q.status = .pending → ∀ x ∈ gs, x.expired now = true)
    (hrunning : q.status = .running → gs.head? = some (rowGrant q))
    (htail : ∀ x ∈ gs.tail, x.expired now = true) : RowGranted now (some q) gs where
  fresh h := by cases h
  pending p h hs := by
    cases h
    exact hpending hs
  running p h hs := by
    cases h
    exact hrunning hs
  tail := htail

/-- No grants suit every row that does not run. -/
theorem RowGranted.empty {now : Int} {row : Option (TaskPayload δ)}
    (h : ∀ p, row = some p → p.status ≠ .running) : RowGranted now row [] where
  fresh _ := rfl
  pending _ _ _ := by simp
  running p hp hs := absurd hs (h p hp)
  tail := by simp

theorem Grant.expired_mono {x : Grant} {now now' : Int} (h : now ≤ now')
    (hx : x.expired now = true) : x.expired now' = true := by
  simp only [Grant.expired, Bool.and_eq_true, decide_eq_true_eq] at hx ⊢
  omega

theorem RowGranted.mono {now now' : Int} {row : Option (TaskPayload δ)} {gs : List Grant}
    (h : now ≤ now') (hg : RowGranted now row gs) : RowGranted now' row gs where
  fresh := hg.fresh
  pending p hp hs x hx := Grant.expired_mono h (hg.pending p hp hs x hx)
  running := hg.running
  tail x hx := Grant.expired_mono h (hg.tail x hx)

/-- A row that stays as it is keeps its grants. -/
theorem RowGranted.recordGrant_same {now : Int} {row : Option (TaskPayload δ)} {gs : List Grant}
    (hg : RowGranted now row gs) : recordGrant row row gs = gs := by
  cases row with
  | none => rfl
  | some p =>
    by_cases hrun : p.status = .running
    · have hhead := hg.running p rfl hrun
      cases gs with
      | nil => cases hhead
      | cons x xs =>
        cases hhead
        simp [recordGrant, hrun]
    · simp [recordGrant, hrun]

/-- A row that becomes terminal keeps its grants. -/
theorem RowGranted.terminal {now : Int} {p q : TaskPayload δ} {gs : List Grant}
    (hg : RowGranted now (some p) gs) (hq : q.status = .succeeded ∨ q.status = .failed) :
    RowGranted now (some q) (recordGrant (some p) (some q) gs) := by
  have hnrun : q.status ≠ .running := by rcases hq with h | h <;> simp [h]
  have hnpend : q.status ≠ .pending := by rcases hq with h | h <;> simp [h]
  rw [show recordGrant (some p) (some q) gs = gs by simp [recordGrant, hnrun]]
  exact .of_row (fun hs => absurd hs hnpend) (fun hs => absurd hs hnrun) hg.tail

theorem RowGranted.transition {now : Int} {p q : TaskPayload δ} {gs : List Grant}
    (hg : RowGranted now (some p) gs) (htr : Transition now p q) :
    RowGranted now (some q) (recordGrant (some p) (some q) gs) := by
  cases htr with
  | claim w hpend =>
    have hold := hg.pending p rfl hpend
    have hrec : recordGrant (some p) (some (p.claimed w now)) gs =
        rowGrant (p.claimed w now) :: gs := by simp [recordGrant, hpend]
    rw [hrec]
    exact .of_row (fun hs => by cases hs) (fun _ => rfl) hold
  | complete r w hcan => exact hg.terminal (Or.inl rfl)
  | fail e w hcan => exact hg.terminal (Or.inr rfl)
  | renew extra hrun =>
    have hrec : recordGrant (some p) (some (p.renewed (now + extra))) gs =
        rowGrant (p.renewed (now + extra)) :: gs.tail := by simp [recordGrant, hrun]
    rw [hrec]
    refine .of_row (fun hs => ?_) (fun _ => rfl) hg.tail
    rw [TaskPayload.status_renewed, hrun] at hs
    cases hs

/-- A new row has no grants. -/
theorem RowGranted.insert {now : Int} {q : TaskPayload δ} {gs : List Grant}
    (hg : RowGranted now (none : Option (TaskPayload δ)) gs) (hq : q.status = .pending) :
    RowGranted now (some q) (recordGrant none (some q) gs) := by
  have hnil : gs = [] := hg.fresh rfl
  subst hnil
  refine .empty fun p hp => ?_
  cases hp
  simp [hq]

/-- Requeueing a stale running row leaves expired grants only. -/
theorem RowGranted.requeue {now : Int} {row p : TaskPayload δ} {gs : List Grant}
    (hg : RowGranted now (some row) gs) (hstale : row.staleRunning now = true) :
    RowGranted now (some p.requeued) (recordGrant (some row) (some p.requeued) gs) := by
  rw [TaskPayload.staleRunning_iff] at hstale
  obtain ⟨hrun, hpos, hlt⟩ := hstale
  rw [show recordGrant (some row) (some p.requeued) gs = gs by simp [recordGrant]]
  have hall : ∀ x ∈ gs, x.expired now = true := by
    have hhead := hg.running row rfl hrun
    cases gs with
    | nil => cases hhead
    | cons x xs =>
      cases hhead
      intro y hy
      rcases List.mem_cons.mp hy with rfl | hmem
      · simp [Grant.expired, rowGrant, hpos, hlt]
      · exact hg.tail y hmem
  exact .of_row (fun _ => hall) (fun hs => by cases hs) hg.tail

/-! ## One step of the machine -/

/-- Every row has the grants its status calls for. -/
def AllGranted (s : Sys δ) (g : Grants) : Prop := ∀ t, RowGranted s.now (s.rows.find t) (g t)

/-- The step of one row when `q` is written: its own grants change, all others stay. -/
theorem allGranted_put {now : Int} {rows : Rows δ} {g : Grants} {q : TaskPayload δ}
    (hg : ∀ t, RowGranted now (rows.find t) (g t))
    (hq : RowGranted now (some q) (recordGrant (rows.find q.taskId) (some q) (g q.taskId)))
    (t : String) : RowGranted now ((rows.put q).find t)
      (recordGrant (rows.find t) ((rows.put q).find t) (g t)) := by
  rw [Table.find_put]
  split
  · rename_i ht
    subst ht
    exact hq
  · rw [(hg t).recordGrant_same]
    exact hg t

theorem requeued_of_pointWriteBack {pt : Point δ} {o : Op δ} {q : TaskPayload δ}
    (h : pointWriteBack pt o = some q) :
    q.status = .failed ∨ ∃ p, requeueSnapshot pt o = some p ∧ q = p.requeued := by
  unfold pointWriteBack at h
  split at h
  · cases h
    exact Or.inl rfl
  · rename_i p todo n
    split at h <;> cases h
    rename_i hlt
    exact Or.inr ⟨p, by rw [requeueSnapshot, if_pos hlt], rfl⟩
  · cases h

theorem allGranted_step {ns : String} {s s' : Sys δ} {a : Action δ} {g : Grants}
    (hpts : PointsOk s) (hg : AllGranted s g) (hfresh : freshSubmit s a = true)
    (hreq : requeueTakesExpired s a) (hstep : step ns s a = some s') :
    AllGranted s' (fun t => recordGrant (s.rows.find t) (s'.rows.find t) (g t)) := by
  have hnow := (pointsOk_step hpts hstep).1
  suffices h : ∀ t, RowGranted s.now (s'.rows.find t)
      (recordGrant (s.rows.find t) (s'.rows.find t) (g t)) from fun t => (h t).mono hnow
  cases a with
  | tick d =>
    obtain ⟨_, rfl⟩ := step_tick hstep
    intro t
    rw [(hg t).recordGrant_same]
    exact hg t
  | op i o =>
    obtain ⟨pt, hpt, _⟩ := step_op hstep
    have heff := stepPoint_rows hpt
    generalize s'.rows = rows' at heff ⊢
    cases heff with
    | guarded h =>
      rcases h with rfl | ⟨p, q, hfind, htr, rfl⟩
      · intro t
        rw [(hg t).recordGrant_same]
        exact hg t
      · refine allGranted_put hg ?_
        have hp := hg p.taskId
        rw [hfind] at hp
        rw [htr.taskId_eq, hfind]
        exact hp.transition htr
    | submit spec ho =>
      subst ho
      simp only [freshSubmit, Option.isNone_iff_eq_none] at hfresh
      refine allGranted_put hg ?_
      have hnone := hg spec.taskId
      rw [hfresh] at hnone
      rw [show (buildPayload ns spec s.now).taskId = spec.taskId from rfl, hfresh]
      exact hnone.insert rfl
    | insert ps hptis hconf =>
      obtain ⟨hnd, hnone⟩ := insertConflicts_eq_false hconf
      have hpend : ∀ p ∈ ps, p.status = .pending := by
        have hok := hpts i
        rw [hptis] at hok
        exact hok
      intro t
      by_cases hmem : t ∈ ps.map (·.taskId)
      · obtain ⟨p, hp, rfl⟩ := List.mem_map.mp hmem
        have hrow := hg p.taskId
        rw [hnone p hp] at hrow
        rw [Table.find_putAll_of_mem hnd _ hp, hnone p hp]
        exact hrow.insert (hpend p hp)
      · rw [Table.find_putAll_of_notMem ps s.rows hmem, (hg t).recordGrant_same]
        exact hg t
    | writeBack q hq =>
      refine allGranted_put hg ?_
      have hrow := hg q.taskId
      rcases requeued_of_pointWriteBack hq with hfailed | ⟨p, hp, rfl⟩
      · cases hfind : s.rows.find q.taskId with
        | none =>
          rw [hfind] at hrow
          have hnil := hrow.fresh rfl
          rw [hnil]
          refine .empty fun p hp => ?_
          cases hp
          simp [hfailed]
        | some r =>
          rw [hfind] at hrow
          exact hrow.terminal (Or.inr hfailed)
      · obtain ⟨row, hfind, hstale, _⟩ := hreq p hp
        rw [TaskPayload.taskId_requeued, hfind] at hrow ⊢
        exact hrow.requeue hstale

theorem atMostOneHolder_of_allGranted {s : Sys δ} {g : Grants} (h : AllGranted s g) :
    AtMostOneHolder s.now g := by
  intro t
  have htail := (h t).tail
  cases hgs : g t with
  | nil => simp
  | cons x xs =>
    rw [hgs] at htail
    have hnone : xs.filter (fun y => !y.expired s.now) = [] := by
      rw [List.filter_eq_nil_iff]
      intro y hy
      simp [htail y hy]
    rw [List.filter_cons, hnone]
    split <;> simp

theorem meets_requeueSeesSnapshot_iff (ns : String) (now : Int) (as : List (Action δ)) :
    (machine ns).Meets (fun u a => requeueSeesSnapshot u a = true) (init now) as ↔
      (machine ns).Meets requeueTakesExpired (init now) as := by
  constructor
  · intro hm
    exact (machine ns).meets_of_invariant (fun s a t hs _ ht => (pointsOk_step hs ht).2)
      (fun s a hs hC => (requeueSeesSnapshot_iff hs a).mp hC) (pointsOk_init now) hm
  · intro hm
    exact (machine ns).meets_of_invariant (fun s a t hs _ ht => (pointsOk_step hs ht).2)
      (fun s a hs hC => (requeueSeesSnapshot_iff hs a).mpr hC) (pointsOk_init now) hm

/-- Recovery spares live workers exactly when it sees what it rewrites. For every interleaving with fresh ids: every requeue hits a running row
with an expired lease in the snapshot's hands, and no task is ever held
twice, if and only if at every requeue the row still has the status and
worker of the snapshot and the snapshot's lease (or one that is stale too). -/
theorem spares_iff_seesSnapshot (ns : String) (now : Int) (as : List (Action δ))
    (hfresh : (machine ns).Meets (fun u a => freshSubmit u a = true) (init now) as) :
    RecoverySparesLiveWorkers ns now as ↔
      (machine ns).Meets (fun u a => requeueSeesSnapshot u a = true) (init now) as := by
  rw [meets_requeueSeesSnapshot_iff]
  refine ⟨fun h => h.1, fun htakes => ⟨htakes, ?_⟩⟩
  intro pre post s g heq hrun
  have hboth := (machine ns).meets_and.mpr ⟨hfresh, htakes⟩
  rw [heq] at hboth
  have hpre := (machine ns).meets_withHistory (fun s _ s' g t =>
    recordGrant (s.rows.find t) (s'.rows.find t) (g t)) (fun _ => [])
    ((machine ns).meets_append.mp hboth).1
  have hinv : PointsOk s ∧ AllGranted s g := by
    refine (granting ns).run_invariant_of_meets (I := fun x : Sys δ × Grants =>
      PointsOk x.1 ∧ AllGranted x.1 x.2) ?_ ⟨pointsOk_init now, ?_⟩ hpre hrun
    · rintro ⟨u, gu⟩ a ⟨v, gv⟩ ⟨hpts, hg⟩ ⟨hf, hr⟩ hstep
      obtain ⟨hv, rfl⟩ := (machine ns).step_withHistory.mp hstep
      exact ⟨(pointsOk_step hpts hv).2, allGranted_step hpts hg hf hr hv⟩
    · exact fun t => .empty fun p hp => by cases hp
  exact atMostOneHolder_of_allGranted hinv.2

/-! ## What the other processes change -/

/-- `t`, when its row passes the test of a guarded change. -/
def passing (rows : Rows δ) (t : String) (test : TaskPayload δ → Bool) : Option String :=
  if (rows.find t).any test then some t else none

/-- The task with a row before this step of process `i` whose row the step changes. -/
def changes (s : Shared δ) (i : Nat) : Point δ → Op δ → Option String
  | .idle _, .complete t _ w => passing s.rows t (·.canComplete w)
  | .idle _, .fail t _ w => passing s.rows t (·.canFail w)
  | .idle _, .renewLease t _ => passing s.rows t (·.status = .running)
  | .claimRow _ t, .next =>
      if s.rowFree i t then passing s.rows t (·.status = .pending) else none
  | .claimRow _ t, .raise c =>
      if c && s.rowFree i t then passing s.rows t (·.status = .pending) else none
  | .cancelSave p, .next => some p.taskId
  | .recoverEach (p :: _) _, .next =>
      if p.retryCount < p.maxRetries then some p.taskId
      else passing s.rows p.taskId (·.canFail "")
  | .waitFail now ((t, some p) :: _) _, .next =>
      if p.status.terminal || p.shouldDetach now then none else passing s.rows t (·.canFail "")
  | _, _ => none

/-- The stale snapshots that a recovery has listed and not yet handled. -/
def listed : Point δ → List (TaskPayload δ)
  | .recoverEach todo _ => todo
  | .recoverPush _ todo _ => todo
  | _ => []

/-- Those of them that it is going to requeue. -/
def toRequeue (pt : Point δ) : List (TaskPayload δ) :=
  (listed pt).filter fun p => p.retryCount < p.maxRetries

/-- No process changes a row that another one has listed and is still to requeue. -/
def Undisturbed (s : Sys δ) : Action δ → Prop
  | .tick _ => True
  | .op i o =>
      ∀ j, j ≠ i → ∀ p ∈ toRequeue (s.points j),
        changes s.toShared i (s.points i) o ≠ some p.taskId

/-- A guarded change of one row leaves every other row. -/
theorem find_put_of_passing {rows : Rows δ} {t u : String} {test : TaskPayload δ → Bool}
    {p q : TaskPayload δ} (hp : rows.find t = some p) (htest : test p = true)
    (hq : q.taskId = p.taskId) (hu : passing rows t test ≠ some u) :
    (rows.put q).find u = rows.find u := by
  have hpass : passing rows t test = some t := by simp [passing, hp, htest]
  have hne : u ≠ t := fun he => hu (by rw [hpass, he])
  refine Table.find_put_of_ne rows ?_
  rw [hq, Table.key_of_find hp]
  exact hne

theorem find_complete_of_passing {rows : Rows δ} {t u w : String} (r : δ)
    (hu : passing rows t (·.canComplete w) ≠ some u) :
    (rows.complete t r w).1.find u = rows.find u := by
  unfold Rows.complete
  split
  · rename_i p hp
    split
    · rename_i hcan
      exact find_put_of_passing hp hcan rfl hu
    · rfl
  · rfl

theorem find_fail_of_passing {rows : Rows δ} {t u w : String} (e : String)
    (hu : passing rows t (·.canFail w) ≠ some u) :
    (rows.fail t e w).1.find u = rows.find u := by
  unfold Rows.fail
  split
  · rename_i p hp
    split
    · rename_i hcan
      exact find_put_of_passing hp hcan rfl hu
    · rfl
  · rfl

theorem find_renewLease_of_passing {rows : Rows δ} {t u : String} (extension now : Int)
    (hu : passing rows t (fun p => p.status = .running) ≠ some u) :
    (rows.renewLease t extension now).find u = rows.find u := by
  unfold Rows.renewLease
  split
  · rename_i p hp
    split
    · rename_i hrun
      exact find_put_of_passing hp (decide_eq_true hrun) rfl hu
    · rfl
  · rfl

theorem find_claim_of_passing {rows : Rows δ} {t u w : String} (now : Int)
    (hu : passing rows t (fun p => p.status = .pending) ≠ some u) :
    (rows.claim t w now).1.find u = rows.find u := by
  unfold Rows.claim
  split
  · rename_i p hp
    split
    · rename_i hpend
      exact find_put_of_passing hp (decide_eq_true hpend) rfl hu
    · rfl
  · rfl

/-- The rows that a step does not change. -/
theorem find_rowsAfter {ns : String} {s : Shared δ} {i : Nat} {pt : Point δ} {o : Op δ}
    {u : String} (hrow : (s.rows.find u).isSome) (hu : changes s i pt o ≠ some u)
    (hfresh : ∀ spec, o = .submit spec → s.rows.find spec.taskId = none) :
    (rowsAfter ns i s pt o).find u = s.rows.find u := by
  obtain ⟨row, hfind⟩ := Option.isSome_iff_exists.mp hrow
  unfold rowsAfter
  split
  · rename_i spec
    refine Table.find_put_of_ne s.rows fun he => ?_
    have hnone := hfresh spec rfl
    rw [show u = spec.taskId from he, hnone] at hfind
    cases hfind
  · exact find_complete_of_passing _ hu
  · exact find_fail_of_passing _ hu
  · exact find_renewLease_of_passing _ _ hu
  · split
    · rfl
    · rename_i hconf
      rw [find_putAll_of_insert (by simpa using hconf) hfind, hfind]
  · split
    · rename_i hfree
      rw [changes, if_pos hfree] at hu
      exact find_claim_of_passing _ hu
    · rfl
  · split
    · rename_i hfree
      rw [changes, if_pos hfree] at hu
      exact find_claim_of_passing _ hu
    · rfl
  · rename_i p
    exact Table.find_put_of_ne s.rows fun he => hu (congrArg some he.symm)
  · rename_i p todo n
    split
    · rename_i hlt
      rw [changes, if_pos hlt] at hu
      exact Table.find_put_of_ne s.rows fun he => hu (congrArg some he.symm)
    · rename_i hlt
      rw [changes, if_neg hlt] at hu
      exact find_fail_of_passing _ hu
  · split
    · rfl
    · rename_i hstuck
      rw [changes, if_neg hstuck] at hu
      exact find_fail_of_passing _ hu
  · rfl

/-! ## The snapshots stay current -/

/-- Each task is listed once, and what is to be requeued is the row. -/
structure Current (rows : Rows δ) (pt : Point δ) : Prop where
  once : ((listed pt).map (·.taskId)).Nodup
  row : ∀ p ∈ toRequeue pt, rows.find p.taskId = some p

theorem Current.of_nil {rows : Rows δ} {pt : Point δ} (h : listed pt = []) : Current rows pt where
  once := by simp [h]
  row p hp := by simp [toRequeue, h] at hp

theorem Current.congr {rows rows' : Rows δ} {pt : Point δ} (h : Current rows pt)
    (hrows : ∀ p ∈ toRequeue pt, rows'.find p.taskId = rows.find p.taskId) :
    Current rows' pt where
  once := h.once
  row p hp := (hrows p hp).trans (h.row p hp)

/-- What a recovery has just listed are the rows. -/
theorem Current.listStaleRunning {rows : Rows δ} {order : List String} (now : Int) (n : Nat)
    (h : order.Nodup) : Current rows (.recoverEach (rows.listStaleRunning order now) n) where
  once := by
    refine h.sublist ((List.filter_sublist.map _).trans ?_)
    rw [Table.map_key_filterMap_find]
    exact List.filter_sublist
  row p hp :=
    Table.find_of_mem_filterMap_find (List.mem_filter.mp (List.mem_filter.mp hp).1).1

/-- A step that has handled the first snapshot, and at most changed its row. -/
theorem Current.tail {rows rows' : Rows δ} {pt pt' : Point δ} {p : TaskPayload δ}
    (h : Current rows pt) (hlisted : listed pt = p :: listed pt')
    (hrows : ∀ q ∈ toRequeue pt', q.taskId ≠ p.taskId →
      rows'.find q.taskId = rows.find q.taskId) : Current rows' pt' := by
  have honce := h.once
  rw [hlisted, List.map_cons, List.nodup_cons] at honce
  refine ⟨honce.2, fun q hq => ?_⟩
  have hmem := (List.mem_filter.mp hq).1
  have hne : q.taskId ≠ p.taskId := fun he => honce.1 (he ▸ List.mem_map_of_mem hmem)
  have hold : q ∈ toRequeue pt :=
    List.mem_filter.mpr ⟨hlisted ▸ List.mem_cons_of_mem _ hmem, (List.mem_filter.mp hq).2⟩
  rw [hrows q hq hne]
  exact h.row q hold

/-- What a step does to the snapshots of its own process. -/
inductive ListedAfter (s : Shared δ) (i : Nat) (pt : Point δ) (o : Op δ) (rows : Rows δ)
    (pt' : Point δ) : Prop
  | none (h : listed pt' = [])
  | scan (order : List String) (hnodup : order.Nodup) (hrows : rows = s.rows)
      (h : pt' = .recoverEach (s.rows.listStaleRunning order s.now) 0)
  | handled (p : TaskPayload δ) (ho : o = .next) (h : listed pt = p :: listed pt')
      (hchanges : changes s i pt o = some p.taskId ∨ changes s i pt o = none)
  | pushed (h : listed pt' = listed pt) (hrows : rows = s.rows)

theorem passing_eq (rows : Rows δ) (t : String) (test : TaskPayload δ → Bool) :
    passing rows t test = some t ∨ passing rows t test = none := by
  unfold passing
  split
  · exact Or.inl rfl
  · exact Or.inr rfl

theorem start_listed {ns : String} {i : Nat} {s s' : Shared δ} {v : Value δ} {pt' : Point δ}
    {o : Op δ} (h : start ns i s o = some (s', pt')) :
    ListedAfter s i (.idle v) o s'.rows pt' := by
  cases o with
  | submit spec =>
    obtain ⟨u, _, heq⟩ := Option.map_eq_some_iff.mp h
    cases heq
    exact .none rfl
  | submitMany specs n =>
    simp only [start] at h
    split at h
    · cases h
      exact .none rfl
    · obtain ⟨_, _, _, rfl | ⟨v, rfl⟩⟩ := openCapacity_frame h
      · exact .none rfl
      · exact .none rfl
  | complete t r w =>
    obtain ⟨u, _, heq⟩ := Option.map_eq_some_iff.mp h
    cases heq
    exact .none rfl
  | fail t e w =>
    obtain ⟨u, _, heq⟩ := Option.map_eq_some_iff.mp h
    cases heq
    exact .none rfl
  | renewLease t extra =>
    obtain ⟨u, _, heq⟩ := Option.map_eq_some_iff.mp h
    cases heq
    exact .none rfl
  | cancel t =>
    simp only [start] at h
    split at h
    · cases h
      exact .none rfl
    · split at h
      · cases h
        exact .none rfl
      · split at h <;> cases h <;> exact .none rfl
  | claim w => cases h; exact .none rfl
  | recover order =>
    simp only [start] at h
    split at h
    · rename_i hperm
      cases h
      exact .scan order (hperm.nodup_iff.mpr s.rows.nodup) rfl rfl
    · cases h
  | wait ids timeout =>
    simp only [start] at h
    split at h <;> cases h <;> exact .none rfl
  | next => cases h
  | raise c => cases h

theorem resume_listed {i : Nat} {s s' : Shared δ} {pt pt' : Point δ}
    (h : resume i s pt = some (s', pt')) : ListedAfter s i pt .next s'.rows pt' := by
  cases pt with
  | idle v => cases h
  | submitPush p => cases h; exact .none rfl
  | manyInsert ps =>
    simp only [resume] at h
    split at h <;> cases h <;> exact .none rfl
  | manyPush ps todo => cases todo <;> cases h <;> exact .none rfl
  | claimPop w =>
    simp only [resume] at h
    split at h <;> cases h <;> exact .none rfl
  | claimRow w t =>
    simp only [resume] at h
    split at h
    · split at h <;> cases h <;> exact .none rfl
    · cases h
      exact .none rfl
  | cancelRemove p => cases h; exact .none rfl
  | cancelSave p =>
    obtain ⟨u, _, heq⟩ := Option.map_eq_some_iff.mp h
    cases heq
    exact .none rfl
  | recoverEach todo n =>
    cases todo with
    | nil => cases h; exact .none rfl
    | cons p todo =>
      simp only [resume] at h
      split at h
      · rename_i hlt
        obtain ⟨u, _, heq⟩ := Option.map_eq_some_iff.mp h
        cases heq
        exact .handled p rfl rfl (Or.inl (if_pos hlt))
      · rename_i hlt
        obtain ⟨u, _, heq⟩ := Option.map_eq_some_iff.mp h
        cases heq
        refine .handled p rfl rfl ?_
        rw [changes, if_neg hlt]
        exact passing_eq s.rows p.taskId _
  | recoverPush p todo n => cases h; exact .pushed rfl rfl
  | waitRead ids deadline todo statuses =>
    cases todo with
    | nil =>
      simp only [resume] at h
      split at h
      · cases h; exact .none rfl
      · split at h <;> cases h <;> exact .none rfl
    | cons t todo => cases h; exact .none rfl
  | waitFail now todo final =>
    cases todo with
    | nil => cases h; exact .none rfl
    | cons read todo =>
      obtain ⟨t, _ | p⟩ := read
      · cases h; exact .none rfl
      · simp only [resume] at h
        split at h
        · cases h; exact .none rfl
        · split at h
          · cases h; exact .none rfl
          · obtain ⟨u, _, heq⟩ := Option.map_eq_some_iff.mp h
            cases heq
            exact .none rfl
  | waitRefresh now t p todo final => cases h; exact .none rfl

theorem stepPoint_listed {ns : String} {i : Nat} {s s' : Shared δ} {pt pt' : Point δ} {o : Op δ}
    (h : stepPoint ns i s pt o = some (s', pt')) : ListedAfter s i pt o s'.rows pt' := by
  by_cases hn : o = .next
  · subst hn
    exact resume_listed h
  · by_cases hr : ∃ c, o = .raise c
    · obtain ⟨c, rfl⟩ := hr
      have hraise : raiseClaim i s c pt = some (s', pt') := h
      unfold raiseClaim at hraise
      split at hraise
      · split at hraise <;> cases hraise <;> exact .none rfl
      · cases hraise
    · obtain ⟨⟨v, rfl⟩, hstart⟩ := stepPoint_start hn (fun c hc => hr ⟨c, hc⟩) h
      exact start_listed hstart

/-- Every snapshot that is still to be requeued is the row. -/
def AllCurrent (s : Sys δ) : Prop := ∀ j, Current s.rows (s.points j)

theorem allCurrent_init (now : Int) : AllCurrent (init now : Sys δ) := fun _ => .of_nil rfl

theorem allCurrent_step {ns : String} {s s' : Sys δ} {a : Action δ} (h : AllCurrent s)
    (hfresh : freshSubmit s a = true) (hcalm : Undisturbed s a) (hstep : step ns s a = some s') :
    AllCurrent s' := by
  cases a with
  | tick d =>
    obtain ⟨_, rfl⟩ := step_tick hstep
    exact h
  | op i o =>
    obtain ⟨pt, hpt, hpts⟩ := step_op hstep
    have hrows := stepPoint_rowsAfter hpt
    have hnew : ∀ spec, o = .submit spec → s.rows.find spec.taskId = none := by
      rintro spec rfl
      simpa [freshSubmit] using hfresh
    have hkept : ∀ j, ∀ p ∈ toRequeue (s.points j),
        changes s.toShared i (s.points i) o ≠ some p.taskId →
          s'.rows.find p.taskId = s.rows.find p.taskId := by
      intro j p hp hchanges
      rw [hrows]
      exact find_rowsAfter (by rw [(h j).row p hp]; rfl) hchanges hnew
    intro j
    rw [hpts]
    by_cases hj : j = i
    · subst hj
      rw [Function.update_self]
      cases stepPoint_listed hpt with
      | none hnil => exact .of_nil hnil
      | scan order hnodup hsame hscan =>
        rw [hsame, hscan]
        exact .listStaleRunning s.now 0 hnodup
      | handled p ho hlisted hchanges =>
        refine (h j).tail hlisted fun q hq hne => hkept j q ?_ fun hq => ?_
        · rw [toRequeue, List.mem_filter] at hq ⊢
          exact ⟨hlisted ▸ List.mem_cons_of_mem _ hq.1, hq.2⟩
        · rcases hchanges with hp | hnone
          · rw [hp] at hq
            exact hne (Option.some.inj hq).symm
          · rw [hnone] at hq
            cases hq
      | pushed hlisted hsame =>
        rw [hsame]
        refine ⟨hlisted ▸ (h j).once, fun p hp => (h j).row p ?_⟩
        rw [toRequeue, hlisted] at hp
        exact hp
    · rw [Function.update_of_ne hj]
      exact (h j).congr fun p hp => hkept j p hp (hcalm j hj p hp)

theorem mem_toRequeue_of_requeueSnapshot {pt : Point δ} {o : Op δ} {p : TaskPayload δ}
    (h : requeueSnapshot pt o = some p) : p ∈ toRequeue pt := by
  unfold requeueSnapshot at h
  split at h
  · split at h <;> cases h
    rename_i hlt
    exact List.mem_filter.mpr ⟨List.mem_cons_self .., decide_eq_true hlt⟩
  · cases h

theorem requeueSeesSnapshot_of_allCurrent {s : Sys δ} (h : AllCurrent s) (a : Action δ) :
    requeueSeesSnapshot s a = true := by
  cases a with
  | tick d => rfl
  | op i o =>
    simp only [requeueSeesSnapshot, Option.all_eq_true]
    intro p hp
    rw [(h i).row p (mem_toRequeue_of_requeueSnapshot hp)]
    simp

/-- **Recovery spares live workers** in every interleaving with fresh ids in
which nobody changes a row between its listing as stale and its requeue:
every requeue hits a running row with an expired lease in the snapshot's
hands, and no task is ever held twice. -/
theorem recovery_spares_live_workers (ns : String) (now : Int) (as : List (Action δ))
    (hfresh : (machine ns).Meets (fun u a => freshSubmit u a = true) (init now) as)
    (hcalm : (machine ns).Meets Undisturbed (init now) as) :
    RecoverySparesLiveWorkers ns now as := by
  refine (spares_iff_seesSnapshot ns now as hfresh).mpr ?_
  refine (machine ns).meets_of_invariant (fun s a t hs hboth ht => ?_)
    (fun s a hs _ => requeueSeesSnapshot_of_allCurrent hs a) (allCurrent_init now)
    ((machine ns).meets_and.mpr ⟨hfresh, hcalm⟩)
  exact allCurrent_step hs hboth.1 hboth.2 ht

/-! ## Finitely many processes -/

/-- `Undisturbed` among the processes below `n`, none other taking a step. -/
def undisturbedBelow (n : Nat) (s : Sys δ) : Action δ → Bool
  | .tick _ => true
  | .op i o =>
      decide (i < n) && (List.range n).all fun j =>
        decide (j = i) || (toRequeue (s.points j)).all fun p =>
          decide (changes s.toShared i (s.points i) o ≠ some p.taskId)

theorem meets_undisturbed {ns : String} {now : Int} {n : Nat} {as : List (Action δ)}
    (h : (machine ns).Meets (fun s a => undisturbedBelow n s a = true) (init now) as) :
    (machine ns).Meets Undisturbed (init now) as := by
  refine (machine ns).meets_of_invariant
    (I := fun s : Sys δ => ∀ j, n ≤ j → listed (s.points j) = []) ?_ ?_ (fun _ _ => rfl) h
  · intro s a t hs hbelow hstep j hj
    rw [points_step_of_ne _ hstep]
    · exact hs j hj
    · cases a with
      | tick d => simp [Action.actor]
      | op i o =>
        simp only [undisturbedBelow, Bool.and_eq_true, decide_eq_true_eq] at hbelow
        have hlt := hbelow.1
        intro he
        cases he
        omega
  · intro s a hs hbelow
    cases a with
    | tick d => trivial
    | op i o =>
      simp only [undisturbedBelow, Bool.and_eq_true, List.all_eq_true, Bool.or_eq_true,
        decide_eq_true_eq, List.mem_range] at hbelow
      intro j hj p hp
      by_cases hlt : j < n
      · exact (hbelow.2 j hlt).resolve_left hj p hp
      · rw [toRequeue, hs j (Nat.not_lt.mp hlt)] at hp
        cases hp

/-! ## The race -/

/-- Process 0 submits `t`, process 1 claims it, its lease of 5 runs out and
process 2 lists it as stale. -/
def listedStale : List (Action String) :=
  [.op 0 (.submit { taskId := "t", inputData := { rest := "" }, timeoutSeconds := 5 }),
   .op 0 .next, .op 1 (.claim "w1"), .op 1 .next, .op 1 .next, .tick 10, .op 2 (.recover ["t"])]

/-- Process 2 requeues `t`, and process 3 claims it. -/
def requeuedAndReclaimed : List (Action String) :=
  [.op 2 .next, .op 2 .next, .op 3 (.claim "w2"), .op 3 .next, .op 3 .next]

/-- A recovery nobody disturbs. In between, process 4 submits `u`, claims it,
renews its lease and completes it, and the first worker reports too late. -/
def orderlyRecovery : List (Action String) :=
  listedStale ++
    [.op 4 (.submit { taskId := "u", inputData := { rest := "" } }), .op 4 .next,
     .op 4 (.claim "w3"), .op 4 .next, .op 4 .next, .op 4 (.renewLease "u" 90)] ++
    requeuedAndReclaimed ++
    [.op 1 (.complete "t" "late" "w1"), .op 4 (.complete "u" "done" "w3"), .op 2 .next]

/-- The heartbeat of process 1 renews the lease between listing and requeue. -/
def heartbeatRace : List (Action String) :=
  listedStale ++ .op 1 (.renewLease "t" 60) :: requeuedAndReclaimed

theorem recovery_spares_live_workers_orderly :
    RecoverySparesLiveWorkers "ns" 0 orderlyRecovery :=
  recovery_spares_live_workers "ns" 0 orderlyRecovery (by decide)
    (meets_undisturbed (n := 5) (by decide))

/-- The unexpired grants of `t` after a run. -/
def holdersAfter (as : List (Action String)) (t : String) : Option (List Grant) :=
  ((granting "ns").run (init 0, fun _ => []) as).map
    (fun x => (x.2 t).filter (fun y => !y.expired x.1.now))

/-- In `heartbeatRace` the requeue hits a renewed lease, and afterwards both
workers hold `t`. -/
theorem recovery_races_heartbeat :
    (machine "ns").Meets (fun u a => freshSubmit u a = true) (init 0) heartbeatRace ∧
      ¬ (machine "ns").Meets requeueTakesExpired (init 0) heartbeatRace ∧
      holdersAfter heartbeatRace "t" = some [⟨"w2", 15⟩, ⟨"w1", 70⟩] ∧
      ¬ RecoverySparesLiveWorkers "ns" 0 heartbeatRace := by
  have hunseen : ¬ (machine "ns").Meets (fun u a => requeueSeesSnapshot u a = true) (init 0)
      heartbeatRace := by decide
  have htaken := mt (meets_requeueSeesSnapshot_iff "ns" 0 heartbeatRace).mpr hunseen
  exact ⟨by decide, htaken, by decide, fun h => htaken h.1⟩

end NeuralHub.TaskQueue.Persisted
