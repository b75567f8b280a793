/-
NeuralHub.TaskQueue.Finality — are completed results final?

`CompletedResultsFinal` says of a run: once a row is SUCCEEDED, its status
and its result are the same in every later state. `complete`, `fail`,
`claim` and `renew_lease` all test the row inside the transaction that
writes it, and none of them accepts a succeeded row
(`Transition.source_not_succeeded`).

`cancel_payload_task` and `_requeue_stale_task` do not. They test a
snapshot, and write the whole snapshot back later. A `complete` that
commits in between is overwritten: `completed_results_not_final` is such
a run, five calls long.

`completed_results_final_iff` says that this is the only way: a run keeps
its completed results if and only if no write-back in it lands on a row
that has become SUCCEEDED meanwhile.
-/
import NeuralHub.TaskQueue.PersistedTheorems

namespace NeuralHub.TaskQueue.Persisted

open NeuralHub.Lib

variable {δ : Type}

/-- Once a row is SUCCEEDED its status and result never change again. -/
def CompletedResultsFinal (ns : String) (s : Sys δ) (as : List (Action δ)) : Prop :=
  ∀ pre mid post u v, as = pre ++ (mid ++ post) →
    (machine ns).run s pre = some u → (machine ns).run u mid = some v →
    ∀ t p, u.rows.find t = some p → p.status = .succeeded →
      ∃ q, v.rows.find t = some q ∧ q.status = .succeeded ∧ q.result = p.result

/-- The step does not write a snapshot back over a SUCCEEDED row. -/
def writeBackSparesResult (s : Sys δ) : Action δ → Bool
  | .tick _ => true
  | .op i o =>
      (pointWriteBack (s.points i) o).all fun q =>
        (s.rows.find q.taskId).all fun p => p.status ≠ .succeeded

/-- Task `t` has succeeded with result `r`. -/
def HasResult (t : String) (r : Option δ) (rows : Rows δ) : Prop :=
  ∃ q, rows.find t = some q ∧ q.status = .succeeded ∧ q.result = r

/-- Writing another task's row keeps the result. -/
theorem HasResult.put {t : String} {r : Option δ} {rows : Rows δ} {p : TaskPayload δ}
    (h : HasResult t r rows) (hp : ∀ q, rows.find p.taskId = some q → q.status ≠ .succeeded) :
    HasResult t r (rows.put p) := by
  obtain ⟨q, hq, hs, hr⟩ := h
  have hne : t ≠ p.taskId := by
    rintro rfl
    exact hp q hq hs
  exact ⟨q, (Table.find_put_of_ne rows hne).trans hq, hs, hr⟩

theorem HasResult.guarded {t : String} {r : Option δ} {rows rows' : Rows δ} {now : Int}
    (h : HasResult t r rows) (hg : Rows.Guarded now rows rows') : HasResult t r rows' := by
  rcases hg with rfl | ⟨p, q, hfind, htr, rfl⟩
  · exact h
  · refine h.put fun x hx => ?_
    rw [htr.taskId_eq, hfind] at hx
    cases hx
    exact htr.source_not_succeeded

/-- One step keeps a result, unless it is a write-back over it. -/
theorem hasResult_step {ns : String} {s s' : Sys δ} {a : Action δ} {t : String} {r : Option δ}
    (h : HasResult t r s.rows) (hfresh : freshSubmit s a = true)
    (hspare : writeBackSparesResult s a = true) (hstep : step ns s a = some s') :
    HasResult t r s'.rows := by
  cases a with
  | tick d =>
    obtain ⟨_, rfl⟩ := step_tick hstep
    exact h
  | op i o =>
    obtain ⟨pt, hpt, _⟩ := step_op hstep
    have heff := stepPoint_rows hpt
    generalize s'.rows = rows' at heff ⊢
    cases heff with
    | guarded hg => exact h.guarded hg
    | submit spec ho =>
      subst ho
      refine h.put fun q hq => ?_
      simp only [freshSubmit, Option.isNone_iff_eq_none] at hfresh
      rw [show (buildPayload ns spec s.now).taskId = spec.taskId from rfl, hfresh] at hq
      cases hq
    | insert ps _ hconf =>
      obtain ⟨q, hq, hs, hr⟩ := h
      exact ⟨q, find_putAll_of_insert hconf hq, hs, hr⟩
    | writeBack q hq =>
      refine h.put fun p hp => ?_
      simp only [writeBackSparesResult, hq, Option.all_some, hp] at hspare
      simpa using hspare

/-- Runs whose write-backs spare succeeded rows keep every result. -/
theorem hasResult_run {ns : String} {s s' : Sys δ} {as : List (Action δ)} {t : String}
    {r : Option δ} (h : HasResult t r s.rows)
    (hm : (machine ns).Meets
      (fun s a => freshSubmit s a = true ∧ writeBackSparesResult s a = true) s as)
    (hrun : (machine ns).run s as = some s') : HasResult t r s'.rows :=
  (machine ns).run_invariant_of_meets
    (fun _ _ _ hI hC hstep => hasResult_step hI hC.1 hC.2 hstep) h hm hrun

/-- A write-back over a succeeded row does change its status. -/
theorem status_changes_of_writeBack {ns : String} {s s' : Sys δ} {i : Nat} {o : Op δ}
    {q : TaskPayload δ} (hstep : step ns s (.op i o) = some s')
    (hq : pointWriteBack (s.points i) o = some q) :
    s'.rows.find q.taskId = some q ∧ q.status ≠ .succeeded := by
  obtain ⟨pt, hpt, _⟩ := step_op hstep
  refine ⟨?_, ?_⟩
  · rw [stepPoint_writeBack hpt hq]
    exact Table.find_put_self s.rows q
  · rcases status_of_pointWriteBack hq with h | h <;> simp [h]

/-- **Completed results are final exactly when no write-back hits one.** For
every interleaving with fresh ids, a succeeded row keeps its status and
result for ever if and only if `save_payload` never writes a cancel's or a
recovery's snapshot over a row that is SUCCEEDED by then. -/
theorem completed_results_final_iff (ns : String) (now : Int) (as : List (Action δ)) (s : Sys δ)
    (hrun : (machine ns).run (init now) as = some s)
    (hfresh : (machine ns).Meets (fun u a => freshSubmit u a = true) (init now) as) :
    CompletedResultsFinal ns (init now) as ↔
      (machine ns).Meets (fun u a => writeBackSparesResult u a = true) (init now) as := by
  constructor
  · intro hfinal
    rw [(machine ns).meets_iff_forall_step hrun]
    intro pre a post u v heq hu hv
    cases a with
    | tick d => rfl
    | op i o =>
      rw [writeBackSparesResult, Option.all_eq_true]
      intro q hq
      rw [Option.all_eq_true]
      intro p hp
      simp only [decide_eq_true_eq]
      intro hsucc
      obtain ⟨hfind, hne⟩ := status_changes_of_writeBack hv hq
      obtain ⟨x, hx, hxs, _⟩ := hfinal pre [.op i o] post u v (by rw [heq]; rfl) hu
        ((machine ns).run_cons_eq_some.mpr ⟨v, hv, rfl⟩) q.taskId p hp hsucc
      rw [hfind] at hx
      cases hx
      exact hne hxs
  · intro hspare pre mid post u v heq hu hv t p hp hsucc
    have hboth := (machine ns).meets_and.mpr ⟨hfresh, hspare⟩
    rw [heq] at hboth
    have hmid := ((machine ns).meets_append.mp hboth).2 u hu
    exact hasResult_run ⟨p, hp, hsucc, rfl⟩ ((machine ns).meets_append.mp hmid).1 hv

/-! ## The race -/

/-- Process 0 submits `t`; process 1 starts to cancel it and reads it as
pending; process 2 claims and completes it; process 1 writes its snapshot
back as FAILED. -/
def cancelRace : List (Action String) :=
  [.op 0 (.submit { taskId := "t", inputData := { rest := "" } }), .op 0 .next,
   .op 1 (.cancel "t"),
   .op 2 (.claim "w"), .op 2 .next, .op 2 .next, .op 2 (.complete "t" "r" "w"),
   .op 1 .next, .op 1 .next]

/-- Up to the write-back of the cancel, `cancelRace` keeps its results. -/
theorem completed_results_final_before_write_back :
    ∃ s, (machine "ns").run (init 0) (cancelRace.take 8) = some s ∧
      CompletedResultsFinal "ns" (init 0) (cancelRace.take 8) := by
  obtain ⟨s, hs⟩ : ∃ s, (machine "ns").run (init 0) (cancelRace.take 8) = some s :=
    Option.isSome_iff_exists.mp (by decide)
  exact ⟨s, hs, (completed_results_final_iff "ns" 0 _ s hs (by decide)).mpr (by decide)⟩

/-- The status of `t` after a run. -/
def statusAfter (as : List (Action String)) (t : String) : Option TaskStatus :=
  ((machine "ns").run (init 0) as).bind (fun s => (s.rows.find t).map (·.status))

/-- In `cancelRace` the completed task ends as FAILED. -/
theorem completed_results_not_final :
    ¬ ∀ (as : List (Action String)) (s : Sys String),
      (machine "ns").run (init 0) as = some s →
      (machine "ns").Meets (fun u a => freshSubmit u a = true) (init 0) as →
      CompletedResultsFinal "ns" (init 0) as := by
  intro h
  obtain ⟨s, hs⟩ : ∃ s, (machine "ns").run (init 0) cancelRace = some s :=
    Option.isSome_iff_exists.mp (by decide)
  obtain ⟨u, hu, hmid⟩ := (machine "ns").run_append_eq_some.mp
    (show (machine "ns").run (init 0) (cancelRace.take 7 ++ cancelRace.drop 7) = some s from hs)
  have hdone : statusAfter (cancelRace.take 7) "t" = some .succeeded := by decide
  have hlost : statusAfter cancelRace "t" = some .failed := by decide
  simp only [statusAfter, hu, hs, Option.bind_some, Option.map_eq_some_iff] at hdone hlost
  obtain ⟨p, hp, hps⟩ := hdone
  obtain ⟨q, hq, hqs⟩ := hlost
  obtain ⟨x, hx, hxs, _⟩ := h cancelRace s hs (by decide) (cancelRace.take 7) (cancelRace.drop 7)
    [] u s (by rw [List.append_nil, List.take_append_drop]) hu hmid "t" p hp hps
  rw [hq] at hx
  cases hx
  rw [hqs] at hxs
  cases hxs

end NeuralHub.TaskQueue.Persisted
