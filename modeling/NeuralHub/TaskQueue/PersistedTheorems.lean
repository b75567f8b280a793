/-
NeuralHub.TaskQueue.PersistedTheorems — what one step of the persisted
queue can do, said once.

`stepPoint` has some thirty branches. No invariant of the queue looks at
all of them: `stepPoint_rowsAfter` gives the rows after a step in closed
form, `stepPoint_rows` sorts that into four kinds of effect, and
everything later about rows is derived from one of the two.
-/
import NeuralHub.TaskQueue.Persisted

namespace NeuralHub.TaskQueue.Persisted

open NeuralHub.Lib

variable {δ : Type}

/-! ## Reading a step -/

theorem step_tick {ns : String} {s s' : Sys δ} {d : Int}
    (h : step ns s (.tick d) = some s') : 0 ≤ d ∧ s' = { s with now := s.now + d } := by
  simp only [step] at h
  split at h
  · exact ⟨‹_›, (Option.some.inj h).symm⟩
  · cases h

theorem step_op {ns : String} {s s' : Sys δ} {i : Nat} {o : Op δ}
    (h : step ns s (.op i o) = some s') :
    ∃ pt, stepPoint ns i s.toShared (s.points i) o = some (s'.toShared, pt) ∧
      s'.points = Function.update s.points i pt := by
  simp only [step, Option.map_eq_some_iff] at h
  obtain ⟨out, hout, rfl⟩ := h
  exact ⟨out.2, hout, rfl⟩

theorem commitRow_eq_some {s s' : Shared δ} {i : Nat} {t : String} {r : Rows δ × Bool}
    (h : s.commitRow i t r = some s') : s' = { s with rows := r.1 } := by
  unfold Shared.commitRow at h
  split at h
  · cases h
  · exact (Option.some.inj h).symm

theorem commitSave_eq_some {s s' : Shared δ} {i : Nat} {p : TaskPayload δ}
    (h : s.commitSave i p = some s') : s' = { s with rows := s.rows.put p } := by
  unfold Shared.commitSave at h
  split at h
  · exact (Option.some.inj h).symm
  · cases h

/-- Opening a capacity transaction writes no row and leaves the list and the clock. -/
theorem openCapacity_frame {s s' : Shared δ} {i : Nat} {ps : List (TaskPayload δ)} {n : Nat}
    {pt : Point δ} (h : s.openCapacity i ps n = some (s', pt)) :
    s'.rows = s.rows ∧ s'.queue = s.queue ∧ s'.now = s.now ∧
      (pt = .manyInsert ps ∨ ∃ v, pt = .idle v) := by
  unfold Shared.openCapacity at h
  split at h
  · cases h
    exact ⟨rfl, rfl, rfl, Or.inr ⟨_, rfl⟩⟩
  · dsimp only at h
    split at h
    · cases h
    · split at h
      · cases h
        exact ⟨rfl, rfl, rfl, Or.inr ⟨_, rfl⟩⟩
      · cases h
        exact ⟨rfl, rfl, rfl, Or.inl rfl⟩

@[simp] theorem rows_release (s : Shared δ) (i : Nat) : (s.release i).rows = s.rows := rfl
@[simp] theorem queue_release (s : Shared δ) (i : Nat) : (s.release i).queue = s.queue := rfl
@[simp] theorem now_release (s : Shared δ) (i : Nat) : (s.release i).now = s.now := rfl
@[simp] theorem rows_push (s : Shared δ) (t : String) : (s.push t).rows = s.rows := rfl
@[simp] theorem queue_push (s : Shared δ) (t : String) : (s.push t).queue = s.queue ++ [t] := rfl
@[simp] theorem now_push (s : Shared δ) (t : String) : (s.push t).now = s.now := rfl

/-! ## Rows -/

/-- The rows after a step of process `i` from point `pt`. -/
def rowsAfter (ns : String) (i : Nat) (s : Shared δ) : Point δ → Op δ → Rows δ
  | .idle _, .submit spec => s.rows.put (buildPayload ns spec s.now)
  | .idle _, .complete t r w => (s.rows.complete t r w).1
  | .idle _, .fail t e w => (s.rows.fail t e w).1
  | .idle _, .renewLease t extra => s.rows.renewLease t extra s.now
  | .manyInsert ps, .next => if s.rows.insertConflicts ps then s.rows else s.rows.putAll ps
  | .claimRow w t, .next => if s.rowFree i t then (s.rows.claim t w s.now).1 else s.rows
  | .claimRow w t, .raise c => if c && s.rowFree i t then (s.rows.claim t w s.now).1 else s.rows
  | .cancelSave p, .next => s.rows.put p.cancelled
  | .recoverEach (p :: _) _, .next =>
      if p.retryCount < p.maxRetries then s.rows.put p.requeued
      else (s.rows.fail p.taskId p.expiredError "").1
  | .waitFail now ((t, some p) :: _) _, .next =>
      if p.status.terminal || p.shouldDetach now then s.rows
      else (s.rows.fail t waitTimeoutError "").1
  | _, _ => s.rows

theorem start_rowsAfter {ns : String} {i : Nat} {s s' : Shared δ} {v : Value δ} {pt' : Point δ}
    {o : Op δ} (h : start ns i s o = some (s', pt')) : s'.rows = rowsAfter ns i s (.idle v) o := by
  cases o with
  | submit spec =>
    obtain ⟨u, hu, heq⟩ := Option.map_eq_some_iff.mp h
    cases heq
    rw [commitSave_eq_some hu]
    rfl
  | submitMany specs n =>
    simp only [start] at h
    split at h
    · cases h
      rfl
    · exact (openCapacity_frame h).1
  | complete t r w =>
    obtain ⟨u, hu, heq⟩ := Option.map_eq_some_iff.mp h
    cases heq
    rw [commitRow_eq_some hu]
    rfl
  | fail t e w =>
    obtain ⟨u, hu, heq⟩ := Option.map_eq_some_iff.mp h
    cases heq
    rw [commitRow_eq_some hu]
    rfl
  | renewLease t extra =>
    obtain ⟨u, hu, heq⟩ := Option.map_eq_some_iff.mp h
    cases heq
    rw [commitRow_eq_some hu]
    rfl
  | cancel t =>
    simp only [start] at h
    split at h
    · cases h
      rfl
    · split at h
      · cases h
        rfl
      · split at h <;> cases h <;> rfl
  | claim w => cases h; rfl
  | recover order =>
    simp only [start] at h
    split at h
    · cases h
      rfl
    · cases h
  | wait ids timeout =>
    simp only [start] at h
    split at h <;> cases h <;> rfl
  | next => cases h
  | raise c => cases h

theorem claim_fst_of_none {rows rows' : Rows δ} {t w : String} {now : Int}
    (h : rows.claim t w now = (rows', none)) : rows' = rows := by
  unfold Rows.claim at h
  split at h
  · split at h <;> cases h
    rfl
  · cases h
    rfl

theorem resume_rowsAfter {ns : String} {i : Nat} {s s' : Shared δ} {pt pt' : Point δ}
    (h : resume i s pt = some (s', pt')) : s'.rows = rowsAfter ns i s pt .next := by
  cases pt with
  | idle v => cases h
  | submitPush p => cases h; rfl
  | manyInsert ps =>
    simp only [resume] at h
    split at h <;> cases h <;> rename_i hconf <;> simp [rowsAfter, hconf]
  | manyPush ps todo => cases todo <;> cases h <;> rfl
  | claimPop w =>
    simp only [resume] at h
    split at h <;> cases h <;> rfl
  | claimRow w t =>
    simp only [resume] at h
    split at h
    · rename_i hfree
      rw [rowsAfter, if_pos hfree]
      split at h
      · rename_i hclaim
        cases h
        rw [hclaim]
      · rename_i hclaim
        cases h
        rw [hclaim, claim_fst_of_none hclaim]
    · rename_i hfree
      cases h
      rw [rowsAfter, if_neg hfree]
  | cancelRemove p => cases h; rfl
  | cancelSave p =>
    obtain ⟨u, hu, heq⟩ := Option.map_eq_some_iff.mp h
    cases heq
    rw [commitSave_eq_some hu]
    rfl
  | recoverEach todo n =>
    cases todo with
    | nil => cases h; rfl
    | cons p todo =>
      simp only [resume] at h
      split at h
      · rename_i hlt
        obtain ⟨u, hu, heq⟩ := Option.map_eq_some_iff.mp h
        cases heq
        rw [commitSave_eq_some hu, rowsAfter, if_pos hlt]
      · rename_i hlt
        obtain ⟨u, hu, heq⟩ := Option.map_eq_some_iff.mp h
        cases heq
        rw [commitRow_eq_some hu, rowsAfter, if_neg hlt]
  | recoverPush p todo n => cases h; rfl
  | waitRead ids deadline todo statuses =>
    cases todo with
    | nil =>
      simp only [resume] at h
      split at h
      · cases h; rfl
      · split at h <;> cases h <;> rfl
    | cons t todo => cases h; rfl
  | waitFail now todo final =>
    match todo, h with
    | [], h => cases h; rfl
    | (_, none) :: todo, h => cases h; rfl
    | (t, some p) :: todo, h =>
      simp only [resume] at h
      split at h
      · rename_i hterm
        cases h
        simp [rowsAfter, hterm]
      · rename_i hterm
        split at h
        · rename_i hdetach
          cases h
          simp [rowsAfter, hdetach]
        · rename_i hdetach
          obtain ⟨u, hu, heq⟩ := Option.map_eq_some_iff.mp h
          cases heq
          rw [commitRow_eq_some hu]
          simp [rowsAfter, hterm, hdetach]
  | waitRefresh now t p todo final => cases h; rfl

theorem raiseClaim_rowsAfter {ns : String} {i : Nat} {s s' : Shared δ} {pt pt' : Point δ}
    {c : Bool} (h : raiseClaim i s c pt = some (s', pt')) :
    s'.rows = rowsAfter ns i s pt (.raise c) := by
  unfold raiseClaim at h
  split at h
  · split at h <;> cases h <;> rename_i hc
    · rw [rowsAfter, if_pos hc]
    · rw [rowsAfter, if_neg hc]
  · cases h

theorem stepPoint_start {ns : String} {i : Nat} {s : Shared δ} {pt : Point δ} {o : Op δ}
    {out : Shared δ × Point δ} (hn : o ≠ .next) (hr : ∀ c, o ≠ .raise c)
    (h : stepPoint ns i s pt o = some out) :
    (∃ v, pt = .idle v) ∧ start ns i s o = some out := by
  cases o with
  | next => exact absurd rfl hn
  | raise c => exact absurd rfl (hr c)
  | _ =>
    cases pt with
    | idle v => exact ⟨⟨v, rfl⟩, h⟩
    | _ => cases h

theorem stepPoint_rowsAfter {ns : String} {i : Nat} {s s' : Shared δ} {pt pt' : Point δ}
    {o : Op δ} (h : stepPoint ns i s pt o = some (s', pt')) : s'.rows = rowsAfter ns i s pt o := by
  by_cases hn : o = .next
  · subst hn
    exact resume_rowsAfter h
  · by_cases hr : ∃ c, o = .raise c
    · obtain ⟨c, rfl⟩ := hr
      exact raiseClaim_rowsAfter h
    · obtain ⟨⟨v, rfl⟩, hstart⟩ := stepPoint_start hn (fun c hc => hr ⟨c, hc⟩) h
      exact start_rowsAfter hstart

/-- The payload with which a step overwrites a row from an older snapshot:
the `save_payload` of `cancel_payload_task` or of `_requeue_stale_task`. -/
def pointWriteBack : Point δ → Op δ → Option (TaskPayload δ)
  | .cancelSave p, .next => some p.cancelled
  | .recoverEach (p :: _) _, .next =>
      if p.retryCount < p.maxRetries then some p.requeued else none
  | _, _ => none

/-- The row effect of one step of a process. -/
inductive RowEffect (ns : String) (s : Shared δ) (pt : Point δ) (o : Op δ) : Rows δ → Prop
  /-- nothing, or a guarded change of one row -/
  | guarded {rows : Rows δ} (h : Rows.Guarded s.now s.rows rows) : RowEffect ns s pt o rows
  /-- `submit` saves a new payload -/
  | submit (spec : QueueSubmitSpec δ) (ho : o = .submit spec) :
      RowEffect ns s pt o (s.rows.put (buildPayload ns spec s.now))
  /-- a capacity transaction inserts rows that did not exist -/
  | insert (ps : List (TaskPayload δ)) (hpt : pt = .manyInsert ps)
      (hfresh : s.rows.insertConflicts ps = false) : RowEffect ns s pt o (s.rows.putAll ps)
  /-- a snapshot is written back -/
  | writeBack (q : TaskPayload δ) (hq : pointWriteBack pt o = some q) :
      RowEffect ns s pt o (s.rows.put q)

/-- Every step does one of four things to the rows. -/
theorem stepPoint_rows {ns : String} {i : Nat} {s s' : Shared δ} {pt pt' : Point δ} {o : Op δ}
    (h : stepPoint ns i s pt o = some (s', pt')) : RowEffect ns s pt o s'.rows := by
  rw [stepPoint_rowsAfter h]
  unfold rowsAfter
  split
  · exact .submit _ rfl
  · exact .guarded (s.rows.complete_guarded _ _ _ s.now)
  · exact .guarded (s.rows.fail_guarded _ _ _ s.now)
  · exact .guarded (s.rows.renewLease_guarded _ _ s.now)
  · split
    · exact .guarded (Or.inl rfl)
    · rename_i hconf
      exact .insert _ rfl (by simpa using hconf)
  · split
    · exact .guarded (s.rows.claim_guarded _ _ s.now)
    · exact .guarded (Or.inl rfl)
  · split
    · exact .guarded (s.rows.claim_guarded _ _ s.now)
    · exact .guarded (Or.inl rfl)
  · exact .writeBack _ rfl
  · split
    · rename_i hlt
      exact .writeBack _ (by rw [pointWriteBack, if_pos hlt])
    · exact .guarded (s.rows.fail_guarded _ _ _ s.now)
  · split
    · exact .guarded (Or.inl rfl)
    · exact .guarded (s.rows.fail_guarded _ _ _ s.now)
  · exact .guarded (Or.inl rfl)

/-- Starting a call does not touch the list. -/
theorem start_queue {ns : String} {i : Nat} {s s' : Shared δ} {pt : Point δ} {o : Op δ}
    (h : start ns i s o = some (s', pt)) : s'.queue = s.queue := by
  cases o with
  | submit spec =>
    obtain ⟨u, hu, heq⟩ := Option.map_eq_some_iff.mp h
    cases heq
    rw [commitSave_eq_some hu]
  | submitMany specs n =>
    simp only [start] at h
    split at h
    · cases h
      rfl
    · exact (openCapacity_frame h).2.1
  | complete t r w =>
    obtain ⟨u, hu, heq⟩ := Option.map_eq_some_iff.mp h
    cases heq
    rw [commitRow_eq_some hu]
  | fail t e w =>
    obtain ⟨u, hu, heq⟩ := Option.map_eq_some_iff.mp h
    cases heq
    rw [commitRow_eq_some hu]
  | renewLease t extra =>
    obtain ⟨u, hu, heq⟩ := Option.map_eq_some_iff.mp h
    cases heq
    rw [commitRow_eq_some hu]
  | cancel t =>
    simp only [start] at h
    split at h
    · cases h
      rfl
    · split at h
      · cases h
        rfl
      · split at h <;> cases h <;> rfl
  | claim w => cases h; rfl
  | recover order =>
    simp only [start] at h
    split at h
    · cases h
      rfl
    · cases h
  | wait ids timeout =>
    simp only [start] at h
    split at h <;> cases h <;> rfl
  | next => cases h
  | raise c => cases h

/-! ## Write-backs -/

theorem status_of_pointWriteBack {pt : Point δ} {o : Op δ} {q : TaskPayload δ}
    (h : pointWriteBack pt o = some q) : q.status = .failed ∨ q.status = .pending := by
  unfold pointWriteBack at h
  split at h
  · cases h
    exact Or.inl rfl
  · split at h <;> cases h
    exact Or.inr rfl
  · cases h

/-- A step that writes a snapshot back does just that to the rows. -/
theorem stepPoint_writeBack {ns : String} {i : Nat} {s s' : Shared δ} {pt pt' : Point δ}
    {o : Op δ} {q : TaskPayload δ} (h : stepPoint ns i s pt o = some (s', pt'))
    (hq : pointWriteBack pt o = some q) : s'.rows = s.rows.put q := by
  unfold pointWriteBack at hq
  split at hq
  · cases hq
    simp only [stepPoint, resume, Option.map_eq_some_iff] at h
    obtain ⟨u, hu, heq⟩ := h
    cases heq
    rw [commitSave_eq_some hu]
  · split at hq <;> cases hq
    rename_i hlt
    simp only [stepPoint, resume, if_pos hlt, Option.map_eq_some_iff] at h
    obtain ⟨u, hu, heq⟩ := h
    cases heq
    rw [commitSave_eq_some hu]
  · cases hq

/-! ## Processes that take no step -/

def Action.actor : Action δ → Option Nat
  | .tick _ => none
  | .op i _ => some i

def Point.isIdle : Point δ → Bool
  | .idle _ => true
  | _ => false

theorem points_step_of_ne {ns : String} {s s' : Sys δ} {a : Action δ} {j : Nat}
    (hj : a.actor ≠ some j) (h : step ns s a = some s') : s'.points j = s.points j := by
  cases a with
  | tick d =>
    obtain ⟨_, rfl⟩ := step_tick h
    rfl
  | op i o =>
    obtain ⟨pt, _, hpts⟩ := step_op h
    have hne : j ≠ i := fun he => hj (by rw [Action.actor, he])
    rw [hpts, Function.update_of_ne hne]

theorem points_run_of_notMem {ns : String} {as : List (Action δ)} {j : Nat} :
    ∀ {s s' : Sys δ}, some j ∉ as.map Action.actor →
      (machine ns).run s as = some s' → s'.points j = s.points j := by
  induction as with
  | nil =>
    intro s s' _ h
    cases h
    rfl
  | cons a as ih =>
    intro s s' hj h
    rw [List.map_cons, List.mem_cons, not_or] at hj
    obtain ⟨u, hu, hrest⟩ := (machine ns).run_cons_eq_some.mp h
    rw [ih hj.2 hrest, points_step_of_ne (fun he => hj.1 he.symm) hu]

/-! ## Freshness -/

/-- `submit` is called with an id that has no row yet. -/
def freshSubmit (s : Sys δ) : Action δ → Bool
  | .op _ (.submit spec) => (s.rows.find spec.taskId).isNone
  | _ => true

theorem insertConflicts_eq_false {rows : Rows δ} {ps : List (TaskPayload δ)}
    (h : rows.insertConflicts ps = false) :
    (ps.map (·.taskId)).Nodup ∧ ∀ p ∈ ps, rows.find p.taskId = none := by
  simp only [Rows.insertConflicts, Bool.or_eq_false_iff, Bool.not_eq_false', decide_eq_true_eq,
    List.any_eq_false] at h
  exact ⟨h.1, fun p hp => by simpa using h.2 p hp⟩

/-- A capacity insert leaves every existing row alone. -/
theorem find_putAll_of_insert {rows : Rows δ} {ps : List (TaskPayload δ)} {t : String}
    {p : TaskPayload δ} (h : rows.insertConflicts ps = false) (hp : rows.find t = some p) :
    (rows.putAll ps).find t = some p := by
  have hnot : t ∉ ps.map (·.taskId) := by
    intro hmem
    obtain ⟨q, hq, rfl⟩ := List.mem_map.mp hmem
    rw [(insertConflicts_eq_false h).2 q hq] at hp
    cases hp
  exact (Table.find_putAll_of_notMem ps rows hnot).trans hp

end NeuralHub.TaskQueue.Persisted
