/-
NeuralHub.TaskQueue.Store — `SubAgentTaskStore` and
`save_payloads_with_capacity`: one definition per database transaction.

The table `sub_agent_tasks` is a `Table` keyed by the id column. Each
definition is the transaction's effect when it commits; who may run it
when (row locks, other open transactions) is the business of
`TaskQueue.Persisted`, which interleaves them.

`Transition` lists the ways a guarded transaction can change one row. The
two whole-payload overwrites of the code, `cancelled` and `requeued`, are
deliberately NOT transitions: they are computed from a snapshot, not from
the row they replace, and everything that goes wrong in the queue goes
wrong there.
-/
import NeuralHub.Lib.Table
import NeuralHub.TaskQueue.Types

namespace NeuralHub.TaskQueue

open NeuralHub.Lib

variable {δ : Type}

/-- The rows of `sub_agent_tasks`. -/
abbrev Rows (δ : Type) := Table (TaskPayload.taskId (δ := δ))

namespace Rows

/-- `save_payload`: insert, or overwrite every column. -/
def savePayload (rows : Rows δ) (p : TaskPayload δ) : Rows δ := rows.put p

/-- `claim`, the row not being locked by another transaction. -/
def claim (rows : Rows δ) (t worker : String) (now : Int) : Rows δ × Option (TaskPayload δ) :=
  match rows.find t with
  | some p =>
      if p.status = .pending then (rows.put (p.claimed worker now), some (p.claimed worker now))
      else (rows, none)
  | none => (rows, none)

def complete (rows : Rows δ) (t : String) (r : δ) (worker : String) : Rows δ × Bool :=
  match rows.find t with
  | some p => if p.canComplete worker then (rows.put (p.succeeded r), true) else (rows, false)
  | none => (rows, false)

def fail (rows : Rows δ) (t e worker : String) : Rows δ × Bool :=
  match rows.find t with
  | some p => if p.canFail worker then (rows.put (p.failed e), true) else (rows, false)
  | none => (rows, false)

def renewLease (rows : Rows δ) (t : String) (extension now : Int) : Rows δ :=
  match rows.find t with
  | some p => if p.status = .running then rows.put (p.renewed (now + extension)) else rows
  | none => rows

/-- `list_stale_running`; `order` is the order in which the `SELECT`
returns the ids, which the code does not fix. -/
def listStaleRunning (rows : Rows δ) (order : List String) (now : Int) : List (TaskPayload δ) :=
  (order.filterMap rows.find).filter (fun p => p.staleRunning now)

def getChildren (rows : Rows δ) (order : List String) (parent : String) : List (TaskPayload δ) :=
  if parent = "" then []
  else (order.filterMap rows.find).filter (fun p => p.parentTaskId = parent)

/-- The ids `_active_count` selects (and locks): the parent's active rows. -/
def activeIds (rows : Rows δ) (parent : String) : List String :=
  (rows.entries.filter (fun p => decide (p.parentTaskId = parent) && p.active)).map (·.taskId)

/-- The insert of `save_payloads_with_capacity` violates the primary key. -/
def insertConflicts (rows : Rows δ) (ps : List (TaskPayload δ)) : Bool :=
  !decide ((ps.map (·.taskId)).Nodup) || ps.any (fun p => (rows.find p.taskId).isSome)

end Rows

/-- `_parent_id`: `none` when the batch mixes parents. Both `_parent_id` and
`task_queue_submit.parent_id` compute it for a non-empty batch. -/
def batchParent (ps : List (TaskPayload δ)) : Option String :=
  match ps with
  | [] => some ""
  | p :: rest => if rest.all (fun q => q.parentTaskId = p.parentTaskId) then some p.parentTaskId
      else none

/-! ## What a guarded transaction can do to a row -/

/-- The guarded changes of one row, at clock reading `now`. -/
inductive Transition (now : Int) (p : TaskPayload δ) : TaskPayload δ → Prop
  | claim (w : String) (h : p.status = .pending) : Transition now p (p.claimed w now)
  | complete (r : δ) (w : String) (h : p.canComplete w = true) : Transition now p (p.succeeded r)
  | fail (e w : String) (h : p.canFail w = true) : Transition now p (p.failed e)
  | renew (extension : Int) (h : p.status = .running) :
      Transition now p (p.renewed (now + extension))

namespace Transition

theorem taskId_eq {now : Int} {p q : TaskPayload δ} (h : Transition now p q) :
    q.taskId = p.taskId := by
  cases h <;> rfl

/-- No guarded transaction touches a succeeded row. -/
theorem source_not_succeeded {now : Int} {p q : TaskPayload δ} (h : Transition now p q) :
    p.status ≠ .succeeded := by
  cases h with
  | claim _ h => simp [h]
  | complete _ _ h =>
    rcases TaskPayload.status_of_canComplete h with h | ⟨h, _⟩ <;> simp [h]
  | fail _ _ h =>
    rcases TaskPayload.active_iff.mp (TaskPayload.active_of_canFail h) with h | h <;> simp [h]
  | renew _ h => simp [h]

/-- No guarded transaction makes a row pending. -/
theorem target_not_pending {now : Int} {p q : TaskPayload δ} (h : Transition now p q) :
    q.status ≠ .pending := by
  cases h with
  | claim => simp
  | complete => simp
  | fail => simp
  | renew _ h => simp [h]

end Transition

namespace Rows

/-! ## Each transaction changes nothing, or one row by a transition -/

/-- The row effect of a guarded transaction. -/
def Guarded (now : Int) (rows rows' : Rows δ) : Prop :=
  rows' = rows ∨ ∃ p q, rows.find p.taskId = some p ∧ Transition now p q ∧ rows' = rows.put q

theorem guarded_of_find {now : Int} {rows : Rows δ} {t : String} {p q : TaskPayload δ}
    (hfind : rows.find t = some p) (hq : Transition now p q) :
    Guarded now rows (rows.put q) := by
  have hid : p.taskId = t := Table.key_of_find hfind
  exact Or.inr ⟨p, q, by rw [hid]; exact hfind, hq, rfl⟩

/-- A guarded transaction removes no row. -/
theorem Guarded.isSome_find {now : Int} {rows rows' : Rows δ} (h : Guarded now rows rows')
    {t : String} (ht : (rows.find t).isSome) : (rows'.find t).isSome := by
  rcases h with rfl | ⟨p, q, _, _, rfl⟩
  · exact ht
  · rw [Table.find_put]
    split
    · rfl
    · exact ht

theorem claim_guarded (rows : Rows δ) (t w : String) (now : Int) :
    Guarded now rows (rows.claim t w now).1 := by
  unfold claim
  split
  · rename_i p hfind
    split
    · rename_i hpend
      exact guarded_of_find hfind (.claim w hpend)
    · exact Or.inl rfl
  · exact Or.inl rfl

theorem complete_guarded (rows : Rows δ) (t : String) (r : δ) (w : String) (now : Int) :
    Guarded now rows (rows.complete t r w).1 := by
  unfold complete
  split
  · rename_i p hfind
    split
    · rename_i hcan
      exact guarded_of_find hfind (.complete r w hcan)
    · exact Or.inl rfl
  · exact Or.inl rfl

theorem fail_guarded (rows : Rows δ) (t e w : String) (now : Int) :
    Guarded now rows (rows.fail t e w).1 := by
  unfold fail
  split
  · rename_i p hfind
    split
    · rename_i hcan
      exact guarded_of_find hfind (.fail e w hcan)
    · exact Or.inl rfl
  · exact Or.inl rfl

theorem renewLease_guarded (rows : Rows δ) (t : String) (extra now : Int) :
    Guarded now rows (rows.renewLease t extra now) := by
  unfold renewLease
  split
  · rename_i p hfind
    split
    · rename_i hrun
      exact guarded_of_find hfind (.renew extra hrun)
    · exact Or.inl rfl
  · exact Or.inl rfl

end Rows

end NeuralHub.TaskQueue
