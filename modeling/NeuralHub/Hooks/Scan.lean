/-
NeuralHub.Hooks.Scan — scans, sweeps and user actions on one hook as a
machine: `runner.py`, `runner_state.py`, `visible_verdict` of `dedupe.py`
and `sweep.py`.

A scan (`run_hook`), a sweep (`_deliver_pending`) and the note of a failed
scan (`mark_scan_failed`) hold the lock of the hook from beginning to end,
so there is one such operation at a time, and the others wait. `Op` is how
far it is and what it has in hand. An operation that waits for the lock
has done nothing yet; it begins with its `get_state`. The actions of a
user, `mark_seen` and `revive`, take only the lock of the store, so they
come between any two awaits.

What the outside does is in the actions: what a scan finds and how it is
assessed, whether a push goes through, the time that is read, and the
timeout of `scan_due_hooks`, which ends a scan at any await. Nothing is
assumed of the times, not even that they grow. That a sweep looks at the
state before it takes the lock is left out; it looks again behind it.
-/
import NeuralHub.Hooks.Store
import NeuralHub.Lib.Machine

namespace NeuralHub.Hooks

open NeuralHub.Lib

/-! ## `runner_state` -/

/-- `PUSH_COOLDOWN_MINUTES`, in microseconds. -/
def pushCooldown : Int := 30 * 60 * 1000000

/-- `_minutes_since(last, now) >= PUSH_COOLDOWN_MINUTES`; a text that is no time is long past. -/
def cooledDown (last : Option Int) (now : Int) : Bool :=
  match last with
  | none => true
  | some last => decide (pushCooldown ≤ now - last)

def healthUpdate (online : Bool) (now : Int) (item : SourceHealth) : SourceHealth :=
  if online then { item with online, lastOk := some now } else { item with online }

def markHealth (health : List SourceHealth) (source : String) (online : Bool) (now : Int) :
    List SourceHealth :=
  if health.any (·.source == source) then
    health.map fun item => if item.source = source then healthUpdate online now item else item
  else health ++ [healthUpdate online now { source }]

def scanHealth (scanned : List (String × Bool)) (health : List SourceHealth) (now : Int) :
    List SourceHealth :=
  scanned.foldl (fun health source => markHealth health source.1 source.2 now) health

/-- `a or b`, of texts. -/
def orText (a b : String) : String := if a = "" then b else a

def nextState (prev current : HookState) (verdict : HookVerdict) (now : Int)
    (scanned : List (String × Bool)) : HookState :=
  { current with
    confidence := verdict.turningScore
    status := verdict.status
    summary := orText verdict.summary (orText prev.summary "尚未扫描")
    sourceHealth := scanHealth scanned current.sourceHealth now
    lastScanned := some now }

def shouldPush (verdict : HookVerdict) (prev : HookState) (now : Int) : Bool :=
  verdict.decision == .push && cooledDown prev.lastPushedTs now

/-! ## `sweep` -/

def pendingDue (state : HookState) (now : Int) : Bool :=
  state.pendingPush && cooledDown state.lastPushedTs now

/-- `_DIGEST_TIMELINE`. -/
def digestTimeline : Nat := 3

def digestVerdict (state : HookState) : HookVerdict where
  turningScore := state.confidence
  materiality := state.confidence
  status := state.status
  decision := .push
  summary := state.summary
  newEntries := state.timeline.take digestTimeline

/-! ## Operations -/

/-- What an operation that saves comes from. -/
inductive Origin
  /-- a scan with a verdict -/
  | scan (prev : HookState) (verdict : HookVerdict) (pushed : Bool)
  /-- a scan without signals, `_empty_outcome` -/
  | empty
  /-- `mark_scan_failed` -/
  | failed
  /-- `_deliver_pending` -/
  | sweep
  deriving DecidableEq, Repr

/-- The await that the operation with the lock of the hook is at. -/
inductive Op
  /-- retrieval and assessment -/
  | scanning (prev : HookState)
  | appending (prev : HookState) (verdict : HookVerdict) (scanned : List (String × Bool))
  | pushing (prev : HookState) (verdict : HookVerdict) (state : HookState) (now : Int)
  | sweeping (state : HookState) (now : Int)
  | saving (origin : Origin) (state : HookState)
  deriving DecidableEq, Repr

structure Sys where
  stored : HookState
  /-- the operation that has the lock -/
  holder : Option Op := none
  deriving DecidableEq, Repr

inductive Event
  | beginScan
  | beginSweep (now : Int)
  | beginFailed (now : Int)
  | noSignals (scanned : List (String × Bool)) (now : Int)
  /-- what `assess_hook` returns; the time is read when nothing is appended -/
  | assessed (verdict : HookVerdict) (scanned : List (String × Bool)) (now : Int)
  | scanError
  | appended (now : Int)
  | pushed
  | pushFailed
  | saved
  /-- the timeout of a scan -/
  | cancelled
  | markSeen
  | revive
  deriving DecidableEq, Repr

/-- What the scans of a hook go by. -/
structure ScanConfig where
  textMatch : Content → Content → Bool
  parseTs : String → Int
  materiality : Int
  enabled : Bool := true

/-- `visible_verdict`. -/
def visibleVerdict (cfg : ScanConfig) (verdict : HookVerdict) (state : HookState) : HookVerdict :=
  let entries :=
    if cfg.materiality ≤ verdict.materiality then
      filterNewEntries cfg.textMatch verdict.newEntries state.timeline
    else []
  if entries ≠ [] then
    { verdict with
      decision := .push
      status := if verdict.status = .resolved then .resolved else .escalating
      newEntries := entries }
  else
    { verdict with
      decision := .drop
      status := if verdict.status = .resolved then .resolved else .stable
      newEntries := [] }

/-- `_run_hook_locked` behind the push: the state that is saved. -/
def savedState (verdict : HookVerdict) (pushed : Bool) (state : HookState) (now : Int) : HookState :=
  if pushed then { state with lastPushedTs := some now, pendingPush := false }
  else if verdict.decision = .push then { state with pendingPush := true }
  else state

/-- `_run_hook_locked` between the append and the push. -/
def decidePush (prev current : HookState) (verdict : HookVerdict) (now : Int)
    (scanned : List (String × Bool)) : Op :=
  let state := nextState prev current verdict now scanned
  if shouldPush verdict prev now then .pushing prev verdict state now
  else .saving (.scan prev verdict false) (savedState verdict false state now)

/-- A scan that the timeout can end. -/
def Op.isScan : Op → Bool
  | .scanning _ | .appending _ _ _ | .pushing _ _ _ _ => true
  | .saving (.scan _ _ _) _ | .saving .empty _ => true
  | .sweeping _ _ | .saving .failed _ | .saving .sweep _ => false

variable (cfg : ScanConfig)

def step (s : Sys) (e : Event) : Option Sys :=
  match s.holder, e with
  | _, .markSeen => some { s with stored := markSeen s.stored }
  | _, .revive => some { s with stored := revive s.stored }
  | none, .beginScan =>
    if cfg.enabled then some { s with holder := some (.scanning (getState cfg.textMatch s.stored)) }
    else none
  | none, .beginSweep now =>
    let state := getState cfg.textMatch s.stored
    if pendingDue state now then some { s with holder := some (.sweeping state now) } else none
  | none, .beginFailed now =>
    let state := getState cfg.textMatch s.stored
    some { s with holder := some (.saving .failed { state with lastScanned := some now }) }
  | some (.scanning prev), .noSignals scanned now =>
    let state :=
      { prev with lastScanned := some now, sourceHealth := scanHealth scanned prev.sourceHealth now }
    some { s with holder := some (.saving .empty state) }
  | some (.scanning prev), .assessed verdict scanned now =>
    let verdict := visibleVerdict cfg verdict prev
    if verdict.newEntries ≠ [] then some { s with holder := some (.appending prev verdict scanned) }
    else some { s with holder := some (decidePush prev prev verdict now scanned) }
  | some (.scanning _), .scanError => some { s with holder := none }
  | some (.appending prev verdict scanned), .appended now =>
    let appended := appendTimeline cfg.textMatch cfg.parseTs s.stored verdict.newEntries
    some ⟨appended.1, some (decidePush prev appended.2 verdict now scanned)⟩
  | some (.pushing prev verdict state now), .pushed =>
    some { s with holder := some (.saving (.scan prev verdict true) (savedState verdict true state now)) }
  | some (.pushing prev verdict state now), .pushFailed =>
    some { s with holder := some (.saving (.scan prev verdict false) (savedState verdict false state now)) }
  | some (.sweeping state now), .pushed =>
    let cleared := { state with pendingPush := false, lastPushedTs := some now }
    some { s with holder := some (.saving .sweep cleared) }
  | some (.sweeping _ _), .pushFailed => some { s with holder := none }
  | some (.saving _ state), .saved => some ⟨state, none⟩
  | some op, .cancelled => if op.isScan then some { s with holder := none } else none
  | _, _ => none

def machine : Machine Sys Event := ⟨step cfg⟩

/-- The entries that an append adds to the stored timeline. -/
def addedEntries (stored : HookState) (verdict : HookVerdict) : List TimelineEntry :=
  (appendTimeline cfg.textMatch cfg.parseTs stored verdict.newEntries).1.timeline.filter fun entry =>
    decide (entry ∈ markedEntries cfg.textMatch (getState cfg.textMatch stored) verdict.newEntries)

/-! ## Transitions -/

/-- The steps of the machine, one by one. -/
inductive Transition : Sys → Event → Sys → Prop
  | markSeen {s : Sys} : Transition s .markSeen { s with stored := markSeen s.stored }
  | revive {s : Sys} : Transition s .revive { s with stored := revive s.stored }
  | beginScan {stored : HookState} : Transition ⟨stored, none⟩ .beginScan
      ⟨stored, some (.scanning (getState cfg.textMatch stored))⟩
  | beginSweep {stored : HookState} {now : Int}
      (hdue : pendingDue (getState cfg.textMatch stored) now = true) :
      Transition ⟨stored, none⟩ (.beginSweep now)
        ⟨stored, some (.sweeping (getState cfg.textMatch stored) now)⟩
  | beginFailed {stored : HookState} {now : Int} : Transition ⟨stored, none⟩ (.beginFailed now)
      ⟨stored, some (.saving .failed { getState cfg.textMatch stored with lastScanned := some now })⟩
  | noSignals {stored prev : HookState} {scanned : List (String × Bool)} {now : Int} :
      Transition ⟨stored, some (.scanning prev)⟩ (.noSignals scanned now)
        ⟨stored, some (.saving .empty { prev with
          lastScanned := some now, sourceHealth := scanHealth scanned prev.sourceHealth now })⟩
  | assessedNew {stored prev : HookState} {verdict : HookVerdict} {scanned : List (String × Bool)}
      {now : Int} (hnew : (visibleVerdict cfg verdict prev).newEntries ≠ []) :
      Transition ⟨stored, some (.scanning prev)⟩ (.assessed verdict scanned now)
        ⟨stored, some (.appending prev (visibleVerdict cfg verdict prev) scanned)⟩
  | assessedNone {stored prev : HookState} {verdict : HookVerdict} {scanned : List (String × Bool)}
      {now : Int} (hnone : (visibleVerdict cfg verdict prev).newEntries = []) :
      Transition ⟨stored, some (.scanning prev)⟩ (.assessed verdict scanned now)
        ⟨stored, some (decidePush prev prev (visibleVerdict cfg verdict prev) now scanned)⟩
  | scanError {stored prev : HookState} :
      Transition ⟨stored, some (.scanning prev)⟩ .scanError ⟨stored, none⟩
  | appended {stored prev : HookState} {verdict : HookVerdict} {scanned : List (String × Bool)}
      {now : Int} :
      Transition ⟨stored, some (.appending prev verdict scanned)⟩ (.appended now)
        ⟨(appendTimeline cfg.textMatch cfg.parseTs stored verdict.newEntries).1,
          some (decidePush prev
            (appendTimeline cfg.textMatch cfg.parseTs stored verdict.newEntries).2
            verdict now scanned)⟩
  | pushed {stored prev state : HookState} {verdict : HookVerdict} {now : Int} :
      Transition ⟨stored, some (.pushing prev verdict state now)⟩ .pushed
        ⟨stored, some (.saving (.scan prev verdict true) (savedState verdict true state now))⟩
  | pushFailed {stored prev state : HookState} {verdict : HookVerdict} {now : Int} :
      Transition ⟨stored, some (.pushing prev verdict state now)⟩ .pushFailed
        ⟨stored, some (.saving (.scan prev verdict false) (savedState verdict false state now))⟩
  | sweepPushed {stored state : HookState} {now : Int} :
      Transition ⟨stored, some (.sweeping state now)⟩ .pushed
        ⟨stored, some (.saving .sweep { state with pendingPush := false, lastPushedTs := some now })⟩
  | sweepFailed {stored state : HookState} {now : Int} :
      Transition ⟨stored, some (.sweeping state now)⟩ .pushFailed ⟨stored, none⟩
  | saved {stored state : HookState} {origin : Origin} :
      Transition ⟨stored, some (.saving origin state)⟩ .saved ⟨state, none⟩
  | cancelled {stored : HookState} {op : Op} (hscan : op.isScan = true) :
      Transition ⟨stored, some op⟩ .cancelled ⟨stored, none⟩

variable {cfg}

theorem transition_of_step {s t : Sys} {e : Event} (h : (machine cfg).step s e = some t) :
    Transition cfg s e t := by
  obtain ⟨stored, holder⟩ := s
  have h : step cfg ⟨stored, holder⟩ e = some t := h
  cases holder with
  | none =>
    cases e with
    | markSeen => exact Option.some.inj h ▸ .markSeen
    | revive => exact Option.some.inj h ▸ .revive
    | beginScan =>
      obtain ⟨-, heq⟩ := Option.ite_none_right_eq_some.mp (h : (if _ then _ else _) = _)
      exact Option.some.inj heq ▸ .beginScan
    | beginSweep now =>
      obtain ⟨hdue, heq⟩ := Option.ite_none_right_eq_some.mp (h : (if _ then _ else _) = _)
      exact Option.some.inj heq ▸ .beginSweep hdue
    | beginFailed now => exact Option.some.inj h ▸ .beginFailed
    | _ => cases h
  | some op =>
    cases e with
    | markSeen => exact Option.some.inj h ▸ .markSeen
    | revive => exact Option.some.inj h ▸ .revive
    | noSignals scanned now =>
      cases op with
      | scanning prev => exact Option.some.inj h ▸ .noSignals
      | _ => cases h
    | assessed verdict scanned now =>
      cases op with
      | scanning prev =>
        have h : (if (visibleVerdict cfg verdict prev).newEntries ≠ [] then _ else _) = some t := h
        split at h
        · rename_i hnew
          exact Option.some.inj h ▸ .assessedNew hnew
        · rename_i hnone
          exact Option.some.inj h ▸ .assessedNone (not_not.mp hnone)
      | _ => cases h
    | scanError =>
      cases op with
      | scanning prev => exact Option.some.inj h ▸ .scanError
      | _ => cases h
    | appended now =>
      cases op with
      | appending prev verdict scanned => exact Option.some.inj h ▸ .appended
      | _ => cases h
    | pushed =>
      cases op with
      | pushing prev verdict state now => exact Option.some.inj h ▸ .pushed
      | sweeping state now => exact Option.some.inj h ▸ .sweepPushed
      | _ => cases h
    | pushFailed =>
      cases op with
      | pushing prev verdict state now => exact Option.some.inj h ▸ .pushFailed
      | sweeping state now => exact Option.some.inj h ▸ .sweepFailed
      | _ => cases h
    | saved =>
      cases op with
      | saving origin state => exact Option.some.inj h ▸ .saved
      | _ => cases h
    | cancelled =>
      have h : (if op.isScan then some (Sys.mk stored none) else none) = some t := by
        cases op <;> exact h
      obtain ⟨hscan, heq⟩ := Option.ite_none_right_eq_some.mp h
      exact Option.some.inj heq ▸ .cancelled hscan
    | _ => cases op <;> cases h

/-! ## A hook -/

/-- A hook whose entries are duplicates only when they are the same; the
time of an entry is the length of its text for it. -/
def alertHook : ScanConfig where
  textMatch := fun a b => decide (a = b)
  parseTs := fun ts => ts.length
  materiality := 60

def alertEntry (ts text : String) : TimelineEntry := { ts, text, source := "twitter" }

/-- An important assessment with these entries. -/
def alertVerdict (newEntries : List TimelineEntry) : HookVerdict where
  turningScore := 80
  materiality := 80
  status := .escalating
  decision := .push
  summary := "talks"
  newEntries := newEntries

/-- A scan up to its push. -/
def scanToPush (newEntries : List TimelineEntry) (now : Int) : List Event :=
  [.beginScan, .assessed (alertVerdict newEntries) [("twitter", true)] now, .appended now]

end NeuralHub.Hooks
