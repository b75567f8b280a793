/-
NeuralHub.Hooks.UserActions — what a user does to a hook stays done, as
long as no operation saves a state that is older.

An operation reads a state, takes its time, and saves the whole state
again; in between only a user can change what is stored, since the lock of
the hook keeps the other operations out. `savesCurrent` compares the two
at the save: the timeline and the counter are still the ones that are
saved, and so is the status, unless it comes from a verdict. An entry that
was seen can also come back by an append, after it fell out of the
timeline; `savesCurrent` excludes that as well.

`SeenLog` is what has to stay: what was seen, how many entries were added
since, and the status that a user or a verdict has set.
-/
import NeuralHub.Hooks.Scan

namespace NeuralHub.Hooks

open NeuralHub.Lib

/-! ## What has to stay -/

structure SeenLog where
  /-- what was in the timeline when `mark_seen` returned -/
  seen : List Content
  /-- how many entries were added since -/
  added : Nat
  /-- what `revive` or a verdict has set last -/
  status : HookStatus
  deriving DecidableEq, Repr

variable (cfg : ScanConfig)

def recordSeen (s : Sys) (e : Event) (_ : Sys) (log : SeenLog) : SeenLog :=
  match e, s.holder with
  | .markSeen, _ =>
    { log with seen := log.seen ++ s.stored.timeline.map (·.content), added := 0 }
  | .revive, _ => { log with status := .developing }
  | .appended _, some (.appending _ verdict _) =>
    { log with added := log.added + (addedEntries cfg s.stored verdict).length }
  | .saved, some (.saving (.scan _ verdict _) _) => { log with status := verdict.status }
  | _, _ => log

/-- Nothing that was seen is shown as new or counted, and the status is the one that was set. -/
structure Kept (stored : HookState) (log : SeenLog) : Prop where
  seen : ∀ entry ∈ stored.timeline, entry.content ∈ log.seen → entry.isNew = false
  unseen : stored.unseenCount ≤ log.added
  status : stored.status = log.status

def Origin.hasVerdict : Origin → Bool
  | .scan _ _ _ => true
  | _ => false

/-- What is saved is no older than what is stored, and no append brings back what was seen. -/
def savesCurrent (x : Sys × SeenLog) (e : Event) : Prop :=
  match e, x.1.holder with
  | .saved, some (.saving origin state) =>
    let now := getState cfg.textMatch x.1.stored
    now.timeline = state.timeline ∧ now.unseenCount = state.unseenCount ∧
      (origin.hasVerdict = true ∨ now.status = state.status)
  | .appended _, some (.appending _ verdict _) =>
    ∀ entry ∈ addedEntries cfg x.1.stored verdict, entry.content ∉ x.2.seen
  | _, _ => True

instance (x : Sys × SeenLog) (e : Event) : Decidable (savesCurrent cfg x e) := by
  suffices h : ∀ holder, Decidable (savesCurrent cfg (⟨x.1.stored, holder⟩, x.2) e) from h _
  intro holder
  apply e.casesOn (motive := fun e => Decidable (savesCurrent cfg (_, x.2) e)) <;> intros <;>
    apply holder.casesOn (motive := fun o => Decidable (savesCurrent cfg (⟨_, o⟩, x.2) _)) <;>
    try intro op <;> apply op.casesOn (motive := fun op =>
      Decidable (savesCurrent cfg (⟨_, some op⟩, x.2) _)) <;> intros
  all_goals (unfold savesCurrent; infer_instance)

variable {cfg}

/-! ## Reading and appending -/

variable {stored : HookState} {log : SeenLog}

theorem timeline_compactState_subset (textMatch : Content → Content → Bool) (state : HookState) :
    (compactState textMatch state).timeline ⊆ state.timeline := by
  unfold compactState
  dsimp only
  split
  · exact List.Subset.refl _
  · exact filterNewEntries_sublist.subset

theorem unseenCount_compactState_le (textMatch : Content → Content → Bool) (state : HookState) :
    (compactState textMatch state).unseenCount ≤ state.unseenCount := by
  unfold compactState
  dsimp only
  split
  · exact Nat.le_refl _
  · exact Nat.min_le_left _ _

theorem Kept.getState (h : Kept stored log) (textMatch : Content → Content → Bool) :
    Kept (getState textMatch stored) log where
  seen entry hmem := h.seen entry (timeline_compactState_subset textMatch stored hmem)
  unseen := Nat.le_trans (unseenCount_compactState_le textMatch stored) h.unseen
  status := (status_compactState textMatch stored).trans h.status

theorem Kept.congr {state : HookState} (h : Kept stored log)
    (htimeline : stored.timeline = state.timeline) (hcount : stored.unseenCount = state.unseenCount)
    {status : HookStatus} (hstatus : state.status = status) : Kept state { log with status } where
  seen entry hmem := h.seen entry (htimeline ▸ hmem)
  unseen := hcount ▸ h.unseen
  status := hstatus

theorem kept_markSeen (h : Kept stored log) (contents : List Content) :
    Kept (markSeen stored) { log with seen := contents, added := 0 } where
  seen := by
    intro entry hmem _
    obtain ⟨old, -, rfl⟩ := List.mem_map.mp hmem
    rfl
  unseen := Nat.le_refl 0
  status := h.status

/-- Appending adds the new entries, none of which was seen, and counts them. -/
theorem kept_appendTimeline (h : Kept stored log) {verdict : HookVerdict}
    (hfresh : ∀ entry ∈ addedEntries cfg stored verdict, entry.content ∉ log.seen) :
    Kept (appendTimeline cfg.textMatch cfg.parseTs stored verdict.newEntries).1
      { log with added := log.added + (addedEntries cfg stored verdict).length } := by
  have hread := h.getState cfg.textMatch
  have hstatus : (appendTimeline cfg.textMatch cfg.parseTs stored verdict.newEntries).1.status =
      stored.status := by
    show (appendTimeline cfg.textMatch cfg.parseTs stored verdict.newEntries).1.scanFields.status =
      stored.scanFields.status
    rw [(scanFields_appendTimeline cfg.parseTs stored verdict.newEntries).1]
  rcases appendTimeline_cases cfg.parseTs stored verdict.newEntries with hsame | ⟨htimeline, hcount⟩
  · rw [hsame]
    exact ⟨h.seen, Nat.le_trans h.unseen (Nat.le_add_right _ _), h.status⟩
  · refine ⟨fun entry hmem hseen => ?_, ?_, hstatus.trans h.status⟩
    · have hmerged := List.mem_of_mem_take (htimeline ▸ hmem)
      rcases List.mem_append.mp ((mergedTimeline_perm _ _ _ _).mem_iff.mp hmerged) with hnew | hold
      · have hadded : entry ∈ addedEntries cfg stored verdict :=
          List.mem_filter.mpr ⟨hmem, decide_eq_true hnew⟩
        exact absurd hseen (hfresh entry hadded)
      · exact hread.seen entry hold hseen
    · rw [hcount, addedEntries, ← List.countP_eq_length_filter]
      exact Nat.add_le_add_right hread.unseen _

/-! ## The invariant -/

/-- A scan that has a verdict saves its status. -/
def HolderStatus : Option Op → Prop
  | some (.pushing _ verdict state _) => state.status = verdict.status
  | some (.saving (.scan _ verdict _) state) => state.status = verdict.status
  | _ => True

def UserActionsKept (x : Sys × SeenLog) : Prop := Kept x.1.stored x.2 ∧ HolderStatus x.1.holder

theorem status_savedState (verdict : HookVerdict) (pushed : Bool) (state : HookState) (now : Int) :
    (savedState verdict pushed state now).status = state.status := by
  unfold savedState
  split
  · rfl
  · split <;> rfl

theorem holderStatus_decidePush (prev current : HookState) (verdict : HookVerdict) (now : Int)
    (scanned : List (String × Bool)) :
    HolderStatus (some (decidePush prev current verdict now scanned)) := by
  unfold decidePush
  dsimp only
  split
  · exact rfl
  · exact status_savedState verdict false _ now

theorem userActionsKept_step {x y : Sys × SeenLog} {e : Event} (h : UserActionsKept x)
    (hcurrent : savesCurrent cfg x e)
    (hstep : ((machine cfg).withHistory (recordSeen cfg)).step x e = some y) :
    UserActionsKept y := by
  obtain ⟨s, log⟩ := x
  obtain ⟨t, log'⟩ := y
  obtain ⟨hmove, rfl⟩ := (machine cfg).step_withHistory.mp hstep
  obtain ⟨hkept, hholder⟩ := h
  cases transition_of_step hmove with
  | markSeen => exact ⟨kept_markSeen hkept _, hholder⟩
  | revive => exact ⟨⟨hkept.seen, hkept.unseen, rfl⟩, hholder⟩
  | beginScan => exact ⟨hkept, trivial⟩
  | beginSweep hdue => exact ⟨hkept, trivial⟩
  | beginFailed => exact ⟨hkept, trivial⟩
  | noSignals => exact ⟨hkept, trivial⟩
  | assessedNew hnew => exact ⟨hkept, trivial⟩
  | assessedNone hnone => exact ⟨hkept, holderStatus_decidePush _ _ _ _ _⟩
  | scanError => exact ⟨hkept, trivial⟩
  | appended => exact ⟨kept_appendTimeline hkept hcurrent, holderStatus_decidePush _ _ _ _ _⟩
  | pushed => exact ⟨hkept, (status_savedState _ _ _ _).trans hholder⟩
  | pushFailed => exact ⟨hkept, (status_savedState _ _ _ _).trans hholder⟩
  | sweepPushed => exact ⟨hkept, trivial⟩
  | sweepFailed => exact ⟨hkept, trivial⟩
  | @saved stored state origin =>
    obtain ⟨htimeline, hcount, hstatus⟩ := hcurrent
    have hread := hkept.getState cfg.textMatch
    refine ⟨?_, trivial⟩
    cases origin with
    | scan prev verdict pushed => exact hread.congr htimeline hcount hholder
    | empty => exact hread.congr htimeline hcount (hread.status ▸ (hstatus.resolve_left (by decide)).symm)
    | failed => exact hread.congr htimeline hcount (hread.status ▸ (hstatus.resolve_left (by decide)).symm)
    | sweep => exact hread.congr htimeline hcount (hread.status ▸ (hstatus.resolve_left (by decide)).symm)
  | cancelled hscan => exact ⟨hkept, trivial⟩

/-- In every run that saves no state older than the stored one, and appends nothing that was seen
before, what a user has done to the hook stays done. -/
theorem userActions_kept {stored : HookState} {as : List Event} {t : Sys} {log : SeenLog}
    (hrun : ((machine cfg).withHistory (recordSeen cfg)).run
      (⟨stored, none⟩, ⟨[], stored.unseenCount, stored.status⟩) as = some (t, log))
    (hmeets : ((machine cfg).withHistory (recordSeen cfg)).Meets (savesCurrent cfg)
      (⟨stored, none⟩, ⟨[], stored.unseenCount, stored.status⟩) as) : Kept t.stored log := by
  have hinit : UserActionsKept (⟨stored, none⟩, ⟨[], stored.unseenCount, stored.status⟩) :=
    ⟨⟨fun _ _ hmem => absurd hmem List.not_mem_nil, Nat.le_refl _, rfl⟩, trivial⟩
  have hinv := Machine.run_invariant_of_meets _
    (fun x e y h hcurrent hstep => userActionsKept_step h hcurrent hstep) hinit hmeets hrun
  exact hinv.1

instance (stored : HookState) (log : SeenLog) : Decidable (Kept stored log) :=
  decidable_of_iff ((∀ entry ∈ stored.timeline, entry.content ∈ log.seen → entry.isNew = false) ∧
    stored.unseenCount ≤ log.added ∧ stored.status = log.status)
    ⟨fun h => ⟨h.1, h.2.1, h.2.2⟩, fun h => ⟨h.seen, h.unseen, h.status⟩⟩

/-- A state of the hook with one entry that nobody has seen. -/
def oneUnseen : HookState :=
  { initialState [] with timeline := [alertEntry "1" "talks begin"], unseenCount := 1 }

def oneUnseenRun (as : List Event) : Option (Sys × SeenLog) :=
  ((machine alertHook).withHistory (recordSeen alertHook)).run
    (⟨oneUnseen, none⟩, ⟨[], 1, .developing⟩) as

/-- The user looks before the scan appends, and wakes the hook when the scan is over. -/
def betweenScans : List Event :=
  [.beginScan, .markSeen, .assessed (alertVerdict [alertEntry "12" "talks fail"]) [("twitter", true)] 0,
    .appended 0, .pushed, .saved, .revive]

theorem kept_betweenScans : ∃ t log, oneUnseenRun betweenScans = some (t, log) ∧
    Kept t.stored log ∧ t.stored.unseenCount = 1 := by
  obtain ⟨⟨t, log⟩, hrun, hcount⟩ := Option.map_eq_some_iff.mp
    (show (oneUnseenRun betweenScans).map (fun x => x.1.stored.unseenCount) = some 1 by decide)
  exact ⟨t, log, hrun, userActions_kept hrun (by decide), hcount⟩

/-- The user looks while a scan that finds nothing is under way. Its save makes the entry new again. -/
theorem markSeen_lost : ∃ t log,
    oneUnseenRun [.beginScan, .markSeen, .noSignals [("twitter", true)] 0, .saved] = some (t, log) ∧
      ¬Kept t.stored log := by
  obtain ⟨⟨t, log⟩, hrun, hkept⟩ := Option.map_eq_some_iff.mp
    (show (oneUnseenRun [.beginScan, .markSeen, .noSignals [("twitter", true)] 0, .saved]).map
      (fun x => decide (Kept x.1.stored x.2)) = some false by decide)
  exact ⟨t, log, hrun, of_decide_eq_false hkept⟩

end NeuralHub.Hooks
