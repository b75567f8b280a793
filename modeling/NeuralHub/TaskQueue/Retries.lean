/-
NeuralHub.TaskQueue.Retries — the consistency of a row, and how often a
task can be claimed.

Calls run one after the other over either back end. A row is `Consistent`
when its columns fit its status and its claims are bounded by its retry
count: a claim needs a pending row, a pending row was new or has been
requeued since its last claim, and every requeue costs one retry.

One clause depends on the caller. A claim writes the lease
`now + timeout_seconds` and a heartbeat writes `now + extension_seconds`,
and nothing checks that these are positive: with a timeout below `-now` a
task runs with a lease that no scan ever finds expired
(`running_with_negative_lease`). So the lease of a running row is positive
when all the leases that were written are.
-/
import NeuralHub.TaskQueue.SequentialTheorems

namespace NeuralHub.TaskQueue.Sequential

open NeuralHub.Lib

variable {σ δ : Type}

/-- What holds of row `p` that was claimed `n` times, with leases in `P`. -/
structure Consistent (P : Int → Prop) (p : TaskPayload δ) (n : Nat) : Prop where
  pending : p.status = .pending →
    p.workerId = "" ∧ p.result = none ∧ p.leaseExpiresAt = 0 ∧ (n : Int) ≤ p.retryCount
  running : p.status = .running → p.workerId ≠ "" ∧ P p.leaseExpiresAt
  succeeded : p.status = .succeeded → p.result.isSome ∧ p.error = ""
  retries : p.retryCount ≤ max 0 p.maxRetries
  claims : (n : Int) ≤ p.retryCount + 1

theorem Consistent.ofNew {P : Int → Prop} {p : TaskPayload δ} (h : IsNew p) :
    Consistent P p 0 := by
  obtain ⟨hstatus, hworker, hlease, hresult, hretries⟩ := h
  refine ⟨fun _ => ⟨hworker, hresult, hlease, ?_⟩, fun hr => ?_, fun hs => ?_, ?_, ?_⟩
  · simp [hretries]
  · rw [hstatus] at hr
    cases hr
  · rw [hstatus] at hs
    cases hs
  · rw [hretries]
    exact Int.le_max_left 0 p.maxRetries
  · simp [hretries]

theorem Consistent.claimed {P : Int → Prop} {p : TaskPayload δ} {n : Nat} {w : String} {now : Int}
    (h : Consistent P p n) (hpend : p.status = .pending) (hw : w ≠ "")
    (hP : P (now + p.timeoutSeconds)) : Consistent P (p.claimed w now) (n + 1) := by
  have hn := (h.pending hpend).2.2.2
  refine ⟨fun hs => ?_, fun _ => ⟨hw, hP⟩, fun hs => ?_, h.retries, ?_⟩
  · cases hs
  · cases hs
  · have hsame : (p.claimed w now).retryCount = p.retryCount := rfl
    rw [hsame]
    omega

theorem Consistent.turn {P : Int → Prop} {p q : TaskPayload δ} {n : Nat} (h : Consistent P p n)
    (hturn : Turn P p q) : Consistent P q n := by
  cases hturn with
  | complete r _ =>
    refine ⟨fun hs => ?_, fun hs => ?_, fun _ => ⟨rfl, rfl⟩, h.retries, h.claims⟩ <;> cases hs
  | fail e _ =>
    refine ⟨fun hs => ?_, fun hs => ?_, fun hs => ?_, h.retries, h.claims⟩ <;> cases hs
  | failClear e _ =>
    refine ⟨fun hs => ?_, fun hs => ?_, fun hs => ?_, h.retries, h.claims⟩ <;> cases hs
  | cancel _ =>
    refine ⟨fun hs => ?_, fun hs => ?_, fun hs => ?_, h.retries, h.claims⟩ <;> cases hs
  | renew lease hrun hP =>
    have hworker := (h.running hrun).1
    refine ⟨fun hs => ?_, fun _ => ⟨hworker, hP⟩, fun hs => ?_, h.retries, h.claims⟩
    · rw [TaskPayload.status_renewed, hrun] at hs
      cases hs
    · rw [TaskPayload.status_renewed, hrun] at hs
      cases hs
  | requeue hrun hlt =>
    -- the retry pays for the claim that is being taken back
    have hclaims := h.claims
    have hcount : p.requeued.retryCount = p.retryCount + 1 := rfl
    have hmax : p.requeued.maxRetries = p.maxRetries := rfl
    refine ⟨fun _ => ⟨rfl, rfl, rfl, ?_⟩, fun hs => ?_, fun hs => ?_, ?_, ?_⟩
    · rw [hcount]
      exact hclaims
    · cases hs
    · cases hs
    · rw [hcount, hmax]
      omega
    · rw [hcount]
      omega

/-! ## All rows, along a run -/

/-- Every row is consistent; what has no row was never claimed. -/
def AllConsistent (P : Int → Prop) (x : Counted δ) : Prop :=
  ∀ t, (∀ p, x.1.find t = some p → Consistent P p (x.2 t)) ∧ (x.1.find t = none → x.2 t = 0)

theorem allConsistent_step {P : Int → Prop} {x y : Counted δ} (h : AllConsistent P x)
    (hstep : Step P x y) : AllConsistent P y := by
  cases hstep with
  | @insert rows c p hnone hnew =>
    intro t
    simp only [Table.find_put]
    split
    · rename_i ht
      subst ht
      have hzero := (h p.taskId).2 hnone
      dsimp only at hzero
      refine ⟨fun q hq => ?_, fun hq => ?_⟩ <;> cases hq
      rw [hzero]
      exact .ofNew hnew
    · exact h t
  | @claim rows c p w now hp hpend hw hP =>
    intro t
    by_cases ht : t = p.taskId
    · subst ht
      have hfind : (rows.put (p.claimed w now)).find p.taskId = some (p.claimed w now) :=
        Table.find_put_self rows (p.claimed w now)
      simp only [hfind, countClaim, Function.update_self]
      refine ⟨fun q hq => ?_, fun hq => ?_⟩ <;> cases hq
      exact ((h p.taskId).1 p hp).claimed hpend hw hP
    · have hne : t ≠ (p.claimed w now).taskId := ht
      simp only [Table.find_put_of_ne rows hne, countClaim, Function.update_of_ne ht]
      exact h t
  | @turn rows c p q hp hturn =>
    intro t
    simp only [Table.find_put, hturn.taskId_eq]
    split
    · rename_i ht
      subst ht
      refine ⟨fun r hr => ?_, fun hr => ?_⟩ <;> cases hr
      exact ((h p.taskId).1 p hp).turn hturn
    · exact h t

theorem allConsistent_steps {P : Int → Prop} {x y : Counted δ} (h : AllConsistent P x)
    (hsteps : Steps P x y) : AllConsistent P y := by
  induction hsteps with
  | refl => exact h
  | tail _ hstep ih => exact allConsistent_step ih hstep

/-- The claims counted after a call. -/
def recordClaims (ns : String) [Backend σ δ] (s : σ) (req : Request δ) (_ : σ)
    (c : String → Nat) : String → Nat :=
  match exec ns s req with
  | some out => countCall req out.2 c
  | none => c

/-- The queue over a back end, counting the claims that returned each task. -/
def counting (ns : String) [Backend σ δ] : Machine (σ × (String → Nat)) (Request δ) :=
  (machine ns).withHistory (recordClaims ns)

open LawfulBackend in
theorem allConsistent_run [Backend σ δ] [LawfulBackend σ] {P : Int → Prop} {ns : String}
    {reqs : List (Request δ)} {s₀ s : σ} {c : String → Nat} (hempty : rows s₀ = Table.empty)
    (hrun : (counting ns).run (s₀, fun _ => 0) reqs = some (s, c))
    (hord : (machine ns).Meets orderly s₀ reqs)
    (hP : (machine ns).Meets (leasesSatisfy P) s₀ reqs) : AllConsistent P (rows s, c) := by
  have hm := (machine ns).meets_withHistory (recordClaims ns) (fun _ => 0)
    ((machine ns).meets_and.mpr ⟨hord, hP⟩)
  refine (counting ns).run_invariant_of_meets
    (I := fun x : σ × (String → Nat) => AllConsistent P (rows x.1, x.2)) ?_ ?_ hm hrun
  · rintro ⟨u, cu⟩ req ⟨v, cv⟩ hI ⟨ho, hl⟩ hstep
    obtain ⟨hv, hcv⟩ := (machine ns).step_withHistory.mp hstep
    obtain ⟨out, hout, rfl⟩ := Option.map_eq_some_iff.mp hv
    rw [recordClaims, show exec ns u req = some out from hout] at hcv
    subst hcv
    exact allConsistent_steps hI (exec_steps hout ho hl)
  · intro t
    dsimp only
    rw [hempty]
    exact ⟨fun p hp => (by cases hp), fun _ => rfl⟩

/-- The claimed consistency of row `p`, claimed `n` times; `positive` says
that every lease written so far was positive. -/
structure RowConsistent (positive : Prop) (p : TaskPayload δ) (n : Nat) : Prop where
  pending : p.status = .pending → p.workerId = "" ∧ p.result = none ∧ p.leaseExpiresAt = 0
  running : p.status = .running → p.workerId ≠ "" ∧ (positive → 0 < p.leaseExpiresAt)
  succeeded : p.status = .succeeded → p.result.isSome ∧ p.error = ""
  retries : 0 ≤ p.maxRetries → p.retryCount ≤ p.maxRetries
  claims : (n : Int) ≤ p.retryCount + 1
  maxClaims : 0 ≤ p.maxRetries → (n : Int) ≤ p.maxRetries + 1

/-- `RowConsistent` for every row that a run over back end `σ` from `s₀` reaches. -/
def RunsConsistent (ns : String) [Backend σ δ] [LawfulBackend σ] (s₀ : σ) : Prop :=
  ∀ (reqs : List (Request δ)) (s : σ) (c : String → Nat),
    (counting ns).run (s₀, fun _ => 0) reqs = some (s, c) →
    (machine ns).Meets orderly s₀ reqs →
    ∀ t p, (LawfulBackend.rows s).find t = some p →
      RowConsistent ((machine ns).Meets (leasesSatisfy (0 < ·)) s₀ reqs) p (c t)

theorem meets_leasesSatisfy_true [Backend σ δ] [LawfulBackend σ] (ns : String) (s : σ)
    (reqs : List (Request δ)) :
    (machine ns).Meets (leasesSatisfy fun _ => True) s reqs := by
  induction reqs generalizing s with
  | nil => trivial
  | cons req reqs ih =>
    refine ⟨?_, fun u _ => ih u⟩
    unfold leasesSatisfy
    split <;> simp

theorem runsConsistent_of_lawful [Backend σ δ] [LawfulBackend σ] (ns : String) {s₀ : σ}
    (hempty : LawfulBackend.rows s₀ = Table.empty) : RunsConsistent ns s₀ := by
  intro reqs s c hrun hord t p hp
  have hany := ((allConsistent_run hempty hrun hord (meets_leasesSatisfy_true ns s₀ reqs)) t).1 p hp
  have hretries := hany.retries
  have hclaims := hany.claims
  refine ⟨fun hs => ?_, fun hs => ⟨(hany.running hs).1, fun hpos => ?_⟩, hany.succeeded,
    fun hmax => ?_, hclaims, fun hmax => ?_⟩
  · obtain ⟨hw, hr, hl, _⟩ := hany.pending hs
    exact ⟨hw, hr, hl⟩
  · have hpositive := ((allConsistent_run hempty hrun hord hpos) t).1 p hp
    exact (hpositive.running hs).2
  · omega
  · dsimp only at hclaims ⊢
    omega

/-- **Bounded retries and row consistency**, over either back end: after any
sequence of calls with fresh ids and non-empty worker ids, every row is
consistent with its status, is claimed at most `retry_count + 1 ≤
max_retries + 1` times, and runs on a positive lease if all leases written
were positive. -/
theorem rows_consistent (ns : String) :
    RunsConsistent ns (RedisState.init : RedisState δ) ∧
      RunsConsistent ns (StoreState.init : StoreState δ) :=
  ⟨runsConsistent_of_lawful ns rfl, runsConsistent_of_lawful ns rfl⟩

/-! ## A lease that is not positive -/

/-- A task with this timeout is submitted and claimed at time 1. -/
def claimAtOne (timeoutSeconds : Int) : List (Request String) :=
  [⟨.submit { taskId := "t", inputData := { rest := "" }, timeoutSeconds := timeoutSeconds },
    fun _ => 1⟩, ⟨.claim "w", fun _ => 1⟩]

theorem orderly_claimAtOne [Backend σ String] [LawfulBackend σ] {s₀ : σ}
    (hempty : LawfulBackend.rows s₀ = Table.empty) (timeoutSeconds : Int) :
    (machine "ns").Meets orderly s₀ (claimAtOne timeoutSeconds) := by
  refine ⟨?_, fun u _ => ⟨?_, fun _ _ => trivial⟩⟩
  · change (LawfulBackend.rows s₀).find "t" = none
    rw [hempty]
    rfl
  · change "w" ≠ ""
    decide

/-- The row of `t` and its claims after `claimAtOne`, over either back end. -/
def redisAtOne (timeoutSeconds : Int) : Option (Option (TaskPayload String) × Nat) :=
  ((counting "ns").run (RedisState.init, fun _ => 0) (claimAtOne timeoutSeconds)).map
    (fun x => (x.1.keys.find "t", x.2 "t"))

def storeAtOne (timeoutSeconds : Int) : Option (Option (TaskPayload String) × Nat) :=
  ((counting "ns").run (StoreState.init, fun _ => 0) (claimAtOne timeoutSeconds)).map
    (fun x => (x.1.rows.find "t", x.2 "t"))

theorem rows_consistent_claimed :
    ∃ p : TaskPayload String, storeAtOne 60 = some (some p, 1) ∧
      RowConsistent ((machine "ns").Meets (leasesSatisfy (0 < ·))
        (StoreState.init : StoreState String) (claimAtOne 60)) p 1 := by
  obtain ⟨⟨s, c⟩, hrun⟩ : ∃ x, (counting "ns").run ((StoreState.init : StoreState String),
      fun _ => 0) (claimAtOne 60) = some x := Option.isSome_iff_exists.mp (by decide)
  have hat : (storeAtOne 60).map (fun x => (x.1.isSome, x.2)) = some (true, 1) := by decide
  simp only [storeAtOne, hrun, Option.map_some, Option.some.injEq, Prod.mk.injEq] at hat
  obtain ⟨p, hp⟩ := Option.isSome_iff_exists.mp hat.1
  have hrow := (rows_consistent "ns").2 (claimAtOne 60) s c hrun (orderly_claimAtOne rfl 60) "t" p hp
  rw [hat.2] at hrow
  refine ⟨p, ?_, hrow⟩
  simp only [storeAtOne, hrun, Option.map_some, hp, hat.2]

/-- Over either back end, with a timeout of `-10`, `t` runs with lease `-9`. -/
theorem running_with_negative_lease :
    ((machine "ns").Meets orderly (RedisState.init : RedisState String) (claimAtOne (-10)) ∧
      (redisAtOne (-10)).map (fun x => x.1.map (fun p => (p.status, p.leaseExpiresAt))) =
        some (some (.running, -9))) ∧
    ((machine "ns").Meets orderly (StoreState.init : StoreState String) (claimAtOne (-10)) ∧
      (storeAtOne (-10)).map (fun x => x.1.map (fun p => (p.status, p.leaseExpiresAt))) =
        some (some (.running, -9))) :=
  ⟨⟨orderly_claimAtOne rfl (-10), by decide⟩, ⟨orderly_claimAtOne rfl (-10), by decide⟩⟩

end NeuralHub.TaskQueue.Sequential
