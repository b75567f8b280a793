/-
NeuralHub.TaskQueue.RedisQueueTheorems — what one step of the Redis-only
queue can do to the keys.

Only `SET` writes a key, and the payload it writes was fixed when the call
last read: `pointSet` reads it off the program point. `stepPoint_keys`
says that nothing else happens to the keys.
-/
import NeuralHub.TaskQueue.RedisQueue

namespace NeuralHub.TaskQueue.RedisQueue

open NeuralHub.Lib

variable {δ : Type}

theorem step_tick {ns : String} {s s' : Sys δ} {d : Int}
    (h : step ns s (.tick d) = some s') : 0 ≤ d ∧ s' = { s with now := s.now + d } := by
  simp only [step] at h
  split at h
  · exact ⟨‹_›, (Option.some.inj h).symm⟩
  · cases h

theorem step_op {ns : String} {s s' : Sys δ} {i : Nat} {o : Op δ}
    (h : step ns s (.op i o) = some s') :
    ∃ pt, stepPoint ns s.toShared (s.points i) o = some (s'.toShared, pt) ∧
      s'.points = Function.update s.points i pt := by
  simp only [step, Option.map_eq_some_iff] at h
  obtain ⟨out, hout, rfl⟩ := h
  exact ⟨out.2, hout, rfl⟩

theorem stepPoint_start {ns : String} {s : Shared δ} {pt : Point δ} {o : Op δ}
    {out : Shared δ × Point δ} (hn : o ≠ .next) (h : stepPoint ns s pt o = some out) :
    (∃ v, pt = .idle v) ∧ start ns s o = some out := by
  cases o with
  | next => exact absurd rfl hn
  | _ =>
    cases pt with
    | idle v => exact ⟨⟨v, rfl⟩, h⟩
    | _ => cases h

/-! ## Keys -/

/-- The payload the next step of a call saves. -/
def pointSet (ns : String) (now : Int) : Point δ → Op δ → Option (TaskPayload δ)
  | .idle _, .submit spec => some (buildPayload ns spec now)
  | .claimSet q, .next => some q
  | .updateSet q, .next => some q
  | .cancelSet p, .next => some p.cancelled
  | .recoverEach (p :: _) _, .next => if p.retryCount < p.maxRetries then some p.requeued else none
  | .recoverFailSet q _ _, .next => some q
  | .waitFailSet _ _ snapshot _ _ _, .next => some (snapshot.failedCleared waitTimeoutError)
  | _, _ => none

/-- The keys after a step that saves `q`, if it saves one. -/
def keysAfter (keys : Rows δ) : Option (TaskPayload δ) → Rows δ
  | none => keys
  | some q => keys.put q

theorem update_keys (s : Shared δ) (t : String) (status : TaskStatus) (result : Option δ)
    (error worker code : String) : (update s t status result error worker code).1 = s := by
  unfold update
  split
  · rfl
  · split <;> rfl

theorem start_keys {ns : String} {s s' : Shared δ} {v : Value δ} {pt' : Point δ} {o : Op δ}
    (h : start ns s o = some (s', pt')) : s'.keys = keysAfter s.keys (pointSet ns s.now (.idle v) o) := by
  cases o with
  | submit spec => cases h; rfl
  | claim w => cases h; rfl
  | complete t r w =>
    have hs : s' = s := by rw [← update_keys s, Option.some.inj h]
    rw [hs]
    rfl
  | fail t e w =>
    have hs : s' = s := by rw [← update_keys s, Option.some.inj h]
    rw [hs]
    rfl
  | renewLease t extra => cases h; rfl
  | cancel t =>
    simp only [start] at h
    split at h
    · cases h
      rfl
    · split at h
      · cases h
        rfl
      · split at h <;> cases h <;> rfl
  | recover ids =>
    simp only [start] at h
    split at h <;> cases h
    rfl
  | wait ids timeout =>
    simp only [start] at h
    split at h <;> cases h <;> rfl
  | next => cases h

theorem resume_keys {ns : String} {s s' : Shared δ} {pt pt' : Point δ}
    (h : resume s pt = some (s', pt')) : s'.keys = keysAfter s.keys (pointSet ns s.now pt .next) := by
  cases pt with
  | idle v => cases h
  | submitIndex p => cases h; rfl
  | submitPush p => cases h; rfl
  | claimPop w =>
    simp only [resume] at h
    split at h <;> cases h <;> rfl
  | claimGet w t =>
    simp only [resume] at h
    split at h
    · split at h <;> cases h <;> rfl
    · cases h
      rfl
  | claimSet q => cases h; rfl
  | updateSet q => cases h; rfl
  | cancelRemove p => cases h; rfl
  | cancelSet p => cases h; rfl
  | recoverScan now ids stale =>
    cases ids with
    | nil => cases h; rfl
    | cons t ids =>
      simp only [resume] at h
      split at h
      · cases h
        rfl
      · split at h <;> cases h <;> rfl
  | recoverEach todo n =>
    cases todo with
    | nil => cases h; rfl
    | cons p todo =>
      simp only [resume] at h
      split at h
      · rename_i hlt
        cases h
        rw [pointSet, if_pos hlt]
        rfl
      · rename_i hlt
        rw [pointSet, if_neg hlt]
        split at h <;> cases h <;> rfl
  | recoverPush p todo n => cases h; rfl
  | recoverFailSet q todo n => cases h; rfl
  | waitRead ids deadline todo statuses =>
    cases todo with
    | nil =>
      simp only [resume] at h
      split at h
      · cases h; rfl
      · split at h <;> cases h <;> rfl
    | cons t todo => cases h; rfl
  | waitFail now todo final =>
    cases todo with
    | nil => cases h; rfl
    | cons read todo =>
      obtain ⟨t, _ | p⟩ := read
      · cases h; rfl
      · simp only [resume] at h
        split at h
        · cases h; rfl
        · split at h
          · cases h; rfl
          · split at h
            · cases h; rfl
            · split at h <;> cases h <;> rfl
  | waitFailSet now t snapshot p todo final => cases h; rfl
  | waitRefresh now t p todo final => cases h; rfl

/-- A step saves what its program point says, and nothing else. -/
theorem stepPoint_keys {ns : String} {s s' : Shared δ} {pt pt' : Point δ} {o : Op δ}
    (h : stepPoint ns s pt o = some (s', pt')) :
    s'.keys = keysAfter s.keys (pointSet ns s.now pt o) := by
  by_cases hn : o = .next
  · subst hn
    exact resume_keys h
  · obtain ⟨⟨v, rfl⟩, hstart⟩ := stepPoint_start hn h
    exact start_keys hstart

/-! ## Processes that take no step -/

def Action.actor : Action δ → Option Nat
  | .tick _ => none
  | .op i _ => some i

theorem points_run_of_notMem {ns : String} {as : List (Action δ)} {j : Nat} :
    ∀ {s s' : Sys δ}, some j ∉ as.map Action.actor →
      (machine ns).run s as = some s' → s'.points j = s.points j := by
  induction as with
  | nil =>
    intro s s' _ h
    cases h
    rfl
  | cons a as ih =>
    intro s s' hj h
    rw [List.map_cons, List.mem_cons, not_or] at hj
    obtain ⟨u, hu, hrest⟩ := (machine ns).run_cons_eq_some.mp h
    rw [ih hj.2 hrest]
    cases a with
    | tick d =>
      obtain ⟨_, rfl⟩ := step_tick (show step ns s (.tick d) = some u from hu)
      rfl
    | op i o =>
      obtain ⟨pt, _, hpts⟩ := step_op (show step ns s (.op i o) = some u from hu)
      have hne : j ≠ i := fun he => hj.1 (by rw [Action.actor, he])
      rw [hpts, Function.update_of_ne hne]

end NeuralHub.TaskQueue.RedisQueue
