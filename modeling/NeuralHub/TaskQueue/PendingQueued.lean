/-
NeuralHub.TaskQueue.PendingQueued — is every pending task in the Redis list?

The rows and the list are updated in separate steps, so the invariant must
say who owes the list an id in the meantime. `Owes pt t`: the process at
`pt` is between two steps one of which will push `t`, claim its row or
write its row. `Tracked s`: every pending row has its id in the list or is
owed by some process. With no call in progress nothing is owed, and the
list holds every pending id.

`claim_task` is the one call that can drop a debt. It pops the id before it
knows whether the row can be claimed. If the row is pending but locked by
an open capacity transaction, `SKIP LOCKED` hides it and the loop goes on
to the next id; if the persistence call raises, the error leaves the loop.
In both cases nobody pushes the id back, and `recover_stale_tasks` looks
only at running rows. `claimKeepsDebt` is the condition that neither
happens, `pending_tasks_queued` the result, and `pending_task_lost` a run
of three calls in which a lock loses a task.
-/
import NeuralHub.TaskQueue.PersistedTheorems

namespace NeuralHub.TaskQueue.Persisted

open NeuralHub.Lib

variable {δ : Type}

/-- Row `t` is PENDING. -/
def pendingAt (rows : Rows δ) (t : String) : Bool := (rows.find t).any (fun p => p.status = .pending)

/-- The process at this point still owes the list the id `t`. -/
def Owes : Point δ → String → Prop
  | .submitPush p, t => p.taskId = t
  | .manyPush _ todo, t => t ∈ todo
  | .claimRow _ t', t => t' = t
  | .cancelSave p, t => p.taskId = t
  | .recoverPush p _ _, t => p.taskId = t
  | _, _ => False

/-- Every pending row is in the list or owed by some process. -/
def Tracked (s : Sys δ) : Prop :=
  ∀ t, pendingAt s.rows t = true → t ∈ s.queue ∨ ∃ i, Owes (s.points i) t

/-- A `claim` in progress does not give up a pending row: the row it popped
is not hidden by a lock, and its persistence call does not raise before the
commit. -/
def claimKeepsDebt (s : Sys δ) : Action δ → Bool
  | .op i .next =>
      match s.points i with
      | .claimRow _ t => s.rowFree i t || !pendingAt s.rows t
      | _ => true
  | .op i (.raise committed) =>
      match s.points i with
      | .claimRow _ t => (committed && s.rowFree i t) || !pendingAt s.rows t
      | _ => true
  | _ => true

/-! ## Pending rows -/

theorem pendingAt_put (rows : Rows δ) (p : TaskPayload δ) (t : String) :
    pendingAt (rows.put p) t =
      if t = p.taskId then decide (p.status = .pending) else pendingAt rows t := by
  unfold pendingAt
  rw [Table.find_put]
  split <;> rfl

theorem pendingAt_put_of_status {rows : Rows δ} {p : TaskPayload δ} {t : String}
    (hp : p.status ≠ .pending) (h : pendingAt (rows.put p) t = true) :
    t ≠ p.taskId ∧ pendingAt rows t = true := by
  rw [pendingAt_put] at h
  split at h
  · simp [hp] at h
  · exact ⟨‹_›, h⟩

theorem pendingAt_of_guarded {now : Int} {rows rows' : Rows δ} {t : String}
    (hg : Rows.Guarded now rows rows') (h : pendingAt rows' t = true) :
    pendingAt rows t = true := by
  rcases hg with rfl | ⟨p, q, _, htr, rfl⟩
  · exact h
  · exact (pendingAt_put_of_status htr.target_not_pending h).2

/-- A claim of a pending row takes it out of the pending rows. -/
theorem pendingAt_claim (rows : Rows δ) (t w : String) (now : Int) :
    pendingAt (rows.claim t w now).1 t = false := by
  unfold Rows.claim
  split
  · rename_i p hfind
    split
    · rw [pendingAt_put]
      split
      · rfl
      · rename_i hne
        exact absurd (Table.key_of_find hfind).symm hne
    · rename_i hp
      simp [pendingAt, hfind, hp]
  · rename_i hnone
    simp [pendingAt, hnone]

/-! ## Where a new pending row comes from -/

/-- A row that a step makes pending is owed by the process that made it so. -/
theorem pending_origin {ns : String} {i : Nat} {s s' : Shared δ} {pt pt' : Point δ} {o : Op δ}
    {t : String} (hstep : stepPoint ns i s pt o = some (s', pt'))
    (h : pendingAt s'.rows t = true) : pendingAt s.rows t = true ∨ Owes pt' t := by
  have heff := stepPoint_rows hstep
  generalize hrows : s'.rows = rows' at heff h
  cases heff with
  | guarded hg => exact Or.inl (pendingAt_of_guarded hg h)
  | submit spec ho =>
    subst ho
    obtain ⟨_, hstart⟩ := stepPoint_start (by simp) (by simp) hstep
    simp only [start, Option.map_eq_some_iff] at hstart
    obtain ⟨_, _, heq⟩ := hstart
    cases heq
    rw [pendingAt_put] at h
    split at h
    · rename_i ht
      exact Or.inr ht.symm
    · exact Or.inl h
  | insert ps hpt hconf =>
    subst hpt
    have hnext : o = .next := by
      cases o with
      | next => rfl
      | _ => cases hstep
    subst hnext
    simp only [stepPoint, resume, hconf, Bool.false_eq_true, if_false, Option.some.injEq] at hstep
    cases hstep
    by_cases hmem : t ∈ ps.map (·.taskId)
    · exact Or.inr hmem
    · left
      unfold pendingAt at h ⊢
      rwa [Table.find_putAll_of_notMem ps s.rows hmem] at h
  | writeBack q hq =>
    unfold pointWriteBack at hq
    split at hq
    · cases hq
      exact Or.inl (pendingAt_put_of_status (by simp) h).2
    · split at hq <;> cases hq
      rename_i hlt
      simp only [stepPoint, resume, if_pos hlt, Option.map_eq_some_iff] at hstep
      obtain ⟨_, _, heq⟩ := hstep
      cases heq
      rw [pendingAt_put] at h
      split at h
      · rename_i ht
        exact Or.inr ht.symm
      · exact Or.inl h
    · cases hq

/-! ## Debts are paid or kept -/

/-- What is owed is paid by pushing it. -/
theorem mem_push {queue : List String} {t u : String} (h : t ∈ queue ∨ u = t) : t ∈ queue ++ [u] := by
  rcases h with hq | rfl
  · exact List.mem_append_left _ hq
  · exact List.mem_append_right _ (List.mem_singleton.mpr rfl)

/-- A step that continues a call pays what it owes, keeps owing it, or
makes the row non-pending. -/
theorem resume_keeps_debt {ns : String} {s : Sys δ} {s' : Shared δ} {i : Nat} {pt' : Point δ}
    {t : String} (hC : claimKeepsDebt s (.op i .next) = true)
    (h : stepPoint ns i s.toShared (s.points i) .next = some (s', pt'))
    (hpend : pendingAt s'.rows t = true) (hcov : t ∈ s.queue ∨ Owes (s.points i) t) :
    t ∈ s'.queue ∨ Owes pt' t := by
  simp only [claimKeepsDebt] at hC
  simp only [stepPoint] at h
  generalize s.points i = pt at hC h hcov
  have hnone : (∀ u, ¬ Owes pt u) → t ∈ s.queue := fun hno =>
    hcov.resolve_right (hno t)
  cases pt with
  | idle v => cases h
  | submitPush p =>
    cases h
    exact Or.inl (mem_push hcov)
  | manyInsert ps =>
    have hq := hnone (fun _ hf => hf)
    simp only [resume] at h
    split at h <;> cases h <;> exact Or.inl hq
  | manyPush ps todo =>
    cases todo with
    | nil =>
      cases h
      exact Or.inl (hcov.resolve_right (by simp [Owes]))
    | cons u todo =>
      cases h
      rcases hcov with hq | hmem
      · exact Or.inl (mem_push (Or.inl hq))
      · rcases List.mem_cons.mp hmem with rfl | hrest
        · exact Or.inl (mem_push (Or.inr rfl))
        · exact Or.inr hrest
  | claimPop w =>
    have hq := hnone (fun _ hf => hf)
    simp only [resume] at h
    split at h
    · cases h
      exact Or.inl hq
    · rename_i u rest hqueue
      cases h
      rw [hqueue] at hq
      rcases List.mem_cons.mp hq with rfl | hrest
      · exact Or.inr rfl
      · exact Or.inl hrest
  | claimRow w u =>
    -- the claimed row is no longer pending, so the debt is only dropped for others
    simp only [resume] at h
    have hu : pendingAt (s.rows.claim u w s.now).1 u = false := pendingAt_claim _ _ _ _
    split at h
    · split at h
      · rename_i rows p hclaim
        cases h
        rw [hclaim] at hu
        rcases hcov with hq | rfl
        · exact Or.inl hq
        · rw [hu] at hpend
          cases hpend
      · rename_i rows hclaim
        cases h
        rcases hcov with hq | rfl
        · exact Or.inl hq
        · rw [hclaim, claim_fst_of_none hclaim] at hu
          rw [hu] at hpend
          cases hpend
    · rename_i hlocked
      cases h
      rcases hcov with hq | rfl
      · exact Or.inl hq
      · simp [hlocked, hpend] at hC
  | cancelRemove p =>
    cases h
    have hq := hnone (fun _ hf => hf)
    by_cases ht : t = p.taskId
    · exact Or.inr ht.symm
    · exact Or.inl (List.mem_filter.mpr ⟨hq, by simpa using ht⟩)
  | cancelSave p =>
    simp only [resume, Option.map_eq_some_iff] at h
    obtain ⟨u, hu, heq⟩ := h
    cases heq
    rw [commitSave_eq_some hu] at hpend ⊢
    obtain ⟨hne, _⟩ := pendingAt_put_of_status (by simp) hpend
    exact Or.inl (hcov.resolve_right (fun he => hne he.symm))
  | recoverEach todo n =>
    have hq := hnone (fun _ hf => hf)
    cases todo with
    | nil => cases h; exact Or.inl hq
    | cons p todo =>
      simp only [resume] at h
      split at h
      · obtain ⟨u, hu, heq⟩ := Option.map_eq_some_iff.mp h
        cases heq
        rw [commitSave_eq_some hu]
        exact Or.inl hq
      · obtain ⟨u, hu, heq⟩ := Option.map_eq_some_iff.mp h
        cases heq
        rw [commitRow_eq_some hu]
        exact Or.inl hq
  | recoverPush p todo n =>
    cases h
    exact Or.inl (mem_push hcov)
  | waitRead ids deadline todo statuses =>
    have hq := hnone (fun _ hf => hf)
    cases todo with
    | nil =>
      simp only [resume] at h
      split at h
      · cases h; exact Or.inl hq
      · split at h <;> cases h <;> exact Or.inl hq
    | cons u todo => cases h; exact Or.inl hq
  | waitFail now todo final =>
    have hq := hnone (fun _ hf => hf)
    cases todo with
    | nil => cases h; exact Or.inl hq
    | cons read todo =>
      obtain ⟨u, _ | p⟩ := read
      · cases h; exact Or.inl hq
      · simp only [resume] at h
        split at h
        · cases h; exact Or.inl hq
        · split at h
          · cases h; exact Or.inl hq
          · obtain ⟨v, hv, heq⟩ := Option.map_eq_some_iff.mp h
            cases heq
            rw [commitRow_eq_some hv]
            exact Or.inl hq
  | waitRefresh now u p todo final =>
    cases h
    exact Or.inl (hnone (fun _ hf => hf))

theorem raise_keeps_debt {ns : String} {s : Sys δ} {s' : Shared δ} {i : Nat} {pt' : Point δ}
    {t : String} {c : Bool} (hC : claimKeepsDebt s (.op i (.raise c)) = true)
    (h : stepPoint ns i s.toShared (s.points i) (.raise c) = some (s', pt'))
    (hpend : pendingAt s'.rows t = true) (hcov : t ∈ s.queue ∨ Owes (s.points i) t) :
    t ∈ s'.queue := by
  simp only [claimKeepsDebt] at hC
  simp only [stepPoint] at h
  generalize s.points i = pt at hC h hcov
  cases pt with
  | claimRow w u =>
    simp only [raiseClaim] at h
    split at h
    · cases h
      rcases hcov with hq | rfl
      · exact hq
      · rw [pendingAt_claim] at hpend
        cases hpend
    · rename_i hbad
      cases h
      rcases hcov with hq | rfl
      · exact hq
      · simp [hbad, hpend] at hC
  | _ => cases h

/-- One step keeps every pending row tracked, unless a `claim` gives one up. -/
theorem tracked_step {ns : String} {s s' : Sys δ} {a : Action δ} (h : Tracked s)
    (hC : claimKeepsDebt s a = true) (hstep : step ns s a = some s') : Tracked s' := by
  cases a with
  | tick d =>
    obtain ⟨_, rfl⟩ := step_tick hstep
    exact h
  | op i o =>
    obtain ⟨pt, hpt, hpts⟩ := step_op hstep
    intro t hpend
    have hself : Owes pt t → ∃ j, Owes (s'.points j) t := fun ho =>
      ⟨i, by rw [hpts, Function.update_self]; exact ho⟩
    rcases pending_origin hpt hpend with hold | hown
    · have hkept : t ∈ s.queue ∨ Owes (s.points i) t → t ∈ s'.queue ∨ Owes pt t := by
        intro hcov
        by_cases hn : o = .next
        · subst hn
          exact resume_keeps_debt hC hpt hpend hcov
        · by_cases hr : ∃ c, o = .raise c
          · obtain ⟨c, rfl⟩ := hr
            exact Or.inl (raise_keeps_debt hC hpt hpend hcov)
          · obtain ⟨⟨v, hv⟩, hstart⟩ := stepPoint_start hn (fun c hc => hr ⟨c, hc⟩) hpt
            rw [start_queue hstart]
            rw [hv] at hcov
            exact Or.inl (hcov.resolve_right (fun hf => hf))
      rcases h t hold with hq | ⟨j, hj⟩
      · exact (hkept (Or.inl hq)).imp_right hself
      · by_cases hji : j = i
        · subst hji
          exact (hkept (Or.inr hj)).imp_right hself
        · exact Or.inr ⟨j, by rw [hpts, Function.update_of_ne hji]; exact hj⟩
    · exact Or.inr (hself hown)

theorem tracked_init (now : Int) : Tracked (init now : Sys δ) := by
  intro t h
  simp [pendingAt, init] at h

/-- **No pending task is lost** in any interleaving in which no `claim`
gives up the pending row it popped: with no call in progress, every task
whose row is PENDING has its id in the list. -/
theorem pending_tasks_queued (ns : String) (now : Int) (as : List (Action δ)) (s : Sys δ)
    (hrun : (machine ns).run (init now) as = some s)
    (hclaims : (machine ns).Meets (fun u a => claimKeepsDebt u a = true) (init now) as)
    (hidle : ∀ i, (s.points i).isIdle = true) (t : String) (p : TaskPayload δ)
    (hp : s.rows.find t = some p) (hpend : p.status = .pending) : t ∈ s.queue := by
  have htracked : Tracked s :=
    (machine ns).run_invariant_of_meets (fun _ _ _ hI hC hs => tracked_step hI hC hs)
      (tracked_init now) hclaims hrun
  rcases htracked t (by simp [pendingAt, hp, hpend]) with hq | ⟨i, hi⟩
  · exact hq
  · have hidle_i := hidle i
    cases hpt : s.points i with
    | idle v =>
      rw [hpt] at hi
      exact hi.elim
    | _ =>
      rw [hpt] at hidle_i
      cases hidle_i

/-! ## A lost task -/

/-- A spec of a task of parent `"p"`. -/
def childSpec (t : String) : QueueSubmitSpec String :=
  { taskId := t, inputData := { parentTaskId := "p", rest := "" } }

/-- Process 0 submits `t1` and `t2`; process 1 claims `t1`. -/
def orderlyClaim : List (Action String) :=
  [.op 0 (.submit (childSpec "t1")), .op 0 .next, .op 0 (.submit (childSpec "t2")), .op 0 .next,
   .op 1 (.claim "w"), .op 1 .next, .op 1 .next]

/-- Process 0 submits `t1`, then starts a batch with `t2`: counting the
parent's active rows locks `t1`. Process 1 pops `t1`, cannot see its row
and goes back to its `brpop`; the batch commits and `t2` is pushed, popped
and claimed. -/
def lockedClaim : List (Action String) :=
  [.op 0 (.submit (childSpec "t1")), .op 0 .next, .op 0 (.submitMany [childSpec "t2"] 10),
   .op 1 (.claim "w"), .op 1 .next, .op 1 .next,
   .op 0 .next, .op 0 .next, .op 0 .next, .op 1 .next, .op 1 .next]

/-- With processes 0 and 1 back at rest, no call is in progress. -/
theorem idle_of_two {as : List (Action String)} {s : Sys String}
    (hrun : (machine "ns").run (init 0) as = some s)
    (hactors : as.map Action.actor ⊆ [some 0, some 1])
    (h0 : (s.points 0).isIdle = true) (h1 : (s.points 1).isIdle = true) (i : Nat) :
    (s.points i).isIdle = true := by
  by_cases hi : some i ∈ as.map Action.actor
  · have hmem := hactors hi
    simp only [List.mem_cons, Option.some.injEq, List.not_mem_nil, or_false] at hmem
    rcases hmem with rfl | rfl
    · exact h0
    · exact h1
  · rw [points_run_of_notMem hi hrun]
    rfl

/-- What a run of processes 0 and 1 leaves behind: whether both are at
rest, whether `t` is pending, and the list. -/
def leftAfter (as : List (Action String)) (t : String) : Option (Bool × Bool × List String) :=
  ((machine "ns").run (init 0) as).map fun s =>
    ((s.points 0).isIdle && (s.points 1).isIdle, pendingAt s.rows t, s.queue)

theorem pending_tasks_queued_orderly :
    ∃ s, (machine "ns").run (init 0) orderlyClaim = some s ∧ "t2" ∈ s.queue := by
  obtain ⟨s, hs⟩ : ∃ s, (machine "ns").run (init 0) orderlyClaim = some s :=
    Option.isSome_iff_exists.mp (by decide)
  have hleft : leftAfter orderlyClaim "t2" = some (true, true, ["t2"]) := by decide
  simp only [leftAfter, hs, Option.map_some, Option.some.injEq, Prod.mk.injEq,
    Bool.and_eq_true, pendingAt, Option.any_eq_true, decide_eq_true_eq] at hleft
  obtain ⟨⟨h0, h1⟩, ⟨p, hp, hpend⟩, _⟩ := hleft
  exact ⟨s, hs, pending_tasks_queued "ns" 0 orderlyClaim s hs (by decide)
    (idle_of_two hs (by decide) h0 h1) "t2" p hp hpend⟩

/-- After `lockedClaim` no call is in progress, `t1` is pending, and the
list is empty. -/
theorem pending_task_lost :
    ¬ ∀ (as : List (Action String)) (s : Sys String),
      (machine "ns").run (init 0) as = some s → (∀ i, (s.points i).isIdle = true) →
      ∀ t p, s.rows.find t = some p → p.status = .pending → t ∈ s.queue := by
  intro h
  obtain ⟨s, hs⟩ : ∃ s, (machine "ns").run (init 0) lockedClaim = some s :=
    Option.isSome_iff_exists.mp (by decide)
  have hleft : leftAfter lockedClaim "t1" = some (true, true, []) := by decide
  simp only [leftAfter, hs, Option.map_some, Option.some.injEq, Prod.mk.injEq,
    Bool.and_eq_true, pendingAt, Option.any_eq_true, decide_eq_true_eq] at hleft
  obtain ⟨⟨h0, h1⟩, ⟨p, hp, hpend⟩, hqueue⟩ := hleft
  have hmem := h lockedClaim s hs (idle_of_two hs (by decide) h0 h1) "t1" p hp hpend
  rw [hqueue] at hmem
  cases hmem

end NeuralHub.TaskQueue.Persisted
