/-
NeuralHub.Hooks.Cooldown — pushes of one hook keep their distance, unless
a scan is ended between its push and its save.

Both ways to push, the scan and the sweep, decide by `last_pushed_ts` of a
state that they read under the lock of the hook, and write the time of
their decision back at the end. The invariant is that every state that a
push is decided by knows the pushes so far: the stored state knows them
while no operation has pushed and not yet saved. A timeout at that moment
leaves the stored state behind, and the next push is decided by it.
-/
import NeuralHub.Hooks.Scan

namespace NeuralHub.Hooks

open NeuralHub.Lib

/-! ## Pushes -/

/-- The decision times of the successful pushes, the last one first. -/
def recordPush (s : Sys) (e : Event) (_ : Sys) (times : List Int) : List Int :=
  match e, s.holder with
  | .pushed, some (.pushing _ _ _ now) => now :: times
  | .pushed, some (.sweeping _ now) => now :: times
  | _, _ => times

/-- Any two pushes are decided at times that far apart. -/
def Spaced (times : List Int) : Prop :=
  times.Pairwise fun later earlier => pushCooldown ≤ later - earlier

/-- A scan whose push went through is not ended in front of its save. -/
def finishesPush (s : Sys) (e : Event) : Bool :=
  match s.holder, e with
  | some (.saving (.scan _ _ true) _), .cancelled => false
  | _, _ => true

/-! ## States that know the pushes -/

/-- The time in the state is not before any push. -/
def Knows (state : HookState) (times : List Int) : Prop :=
  ∀ time ∈ times, ∃ last, state.lastPushedTs = some last ∧ time ≤ last

theorem Knows.congr {state other : HookState} {times : List Int} (h : Knows state times)
    (hfields : other.scanFields = state.scanFields) : Knows other times := by
  have hlast : other.scanFields.lastPushedTs = state.scanFields.lastPushedTs := by rw [hfields]
  exact fun time hmem => (h time hmem).imp fun last hknows => ⟨hlast.trans hknows.1, hknows.2⟩

theorem Knows.of_last {state other : HookState} {times : List Int} (h : Knows state times)
    (hlast : other.lastPushedTs = state.lastPushedTs) : Knows other times :=
  fun time hmem => hlast ▸ h time hmem

theorem Knows.getState {stored : HookState} {times : List Int} (h : Knows stored times)
    (textMatch : Content → Content → Bool) : Knows (getState textMatch stored) times :=
  h.congr (scanFields_compactState stored)

theorem apart_of_cooledDown {state : HookState} {times : List Int} {now : Int}
    (h : Knows state times) (hcool : cooledDown state.lastPushedTs now = true) :
    ∀ time ∈ times, pushCooldown ≤ now - time := by
  intro time hmem
  obtain ⟨last, hlast, hle⟩ := h time hmem
  rw [hlast] at hcool
  have hcool : pushCooldown ≤ now - last := of_decide_eq_true hcool
  omega

/-- The state that a push is written to knows it. -/
theorem knows_push {state : HookState} {times : List Int} {now : Int}
    (hlast : state.lastPushedTs = some now) (h : ∀ time ∈ times, pushCooldown ≤ now - time) :
    Knows state (now :: times) := by
  refine List.forall_mem_cons.mpr ⟨⟨now, hlast, Int.le_refl now⟩, fun time hmem => ⟨now, hlast, ?_⟩⟩
  have hapart := h time hmem
  unfold pushCooldown at hapart
  omega

/-! ## The invariant -/

/-- What the operation with the lock has in hand knows the pushes. -/
def HolderKnows (stored : HookState) (times : List Int) : Option Op → Prop
  | none => Knows stored times
  | some (.scanning prev) => Knows stored times ∧ Knows prev times
  | some (.appending prev _ _) => Knows stored times ∧ Knows prev times
  | some (.pushing prev _ state now) =>
    Knows stored times ∧ Knows state times ∧ Knows prev times ∧
      cooledDown prev.lastPushedTs now = true
  | some (.sweeping state now) =>
    Knows stored times ∧ Knows state times ∧ cooledDown state.lastPushedTs now = true
  | some (.saving (.scan _ _ true) state) => Knows state times
  | some (.saving .sweep state) => Knows state times
  | some (.saving _ state) => Knows stored times ∧ Knows state times

def PushesKnown (x : Sys × List Int) : Prop := Spaced x.2 ∧ HolderKnows x.1.stored x.2 x.1.holder

variable {cfg : ScanConfig}

theorem holderKnows_decidePush {stored prev current : HookState} {times : List Int}
    {verdict : HookVerdict} {now : Int} {scanned : List (String × Bool)} (hstored : Knows stored times)
    (hprev : Knows prev times) (hcurrent : Knows current times) :
    HolderKnows stored times (some (decidePush prev current verdict now scanned)) := by
  unfold decidePush
  dsimp only
  split
  · rename_i hpush
    exact ⟨hstored, hcurrent.of_last rfl, hprev, (Bool.and_eq_true_iff.mp hpush).2⟩
  · refine ⟨hstored, hcurrent.of_last ?_⟩
    unfold savedState
    rw [if_neg Bool.false_ne_true]
    split <;> rfl

theorem HolderKnows.userAction {stored stored' : HookState} {times : List Int} {holder : Option Op}
    (h : HolderKnows stored times holder) (hlast : stored'.lastPushedTs = stored.lastPushedTs) :
    HolderKnows stored' times holder := by
  unfold HolderKnows at h ⊢
  split at h
  · exact h.of_last hlast
  · exact ⟨h.1.of_last hlast, h.2⟩
  · exact ⟨h.1.of_last hlast, h.2⟩
  · exact ⟨h.1.of_last hlast, h.2⟩
  · exact ⟨h.1.of_last hlast, h.2⟩
  · exact h
  · exact h
  · exact ⟨h.1.of_last hlast, h.2⟩

theorem HolderKnows.saved {stored state : HookState} {times : List Int} {origin : Origin}
    (h : HolderKnows stored times (some (.saving origin state))) : Knows state times := by
  cases origin with
  | scan prev verdict pushed =>
    cases pushed with
    | false => exact h.2
    | true => exact h
  | empty => exact h.2
  | failed => exact h.2
  | sweep => exact h

/-- A scan that is ended has not pushed, so the stored state is up to date. -/
theorem HolderKnows.cancelled {stored : HookState} {times : List Int} {op : Op}
    (h : HolderKnows stored times (some op)) (hscan : op.isScan = true)
    (hfinish : finishesPush ⟨stored, some op⟩ .cancelled = true) : Knows stored times := by
  cases op with
  | scanning prev => exact h.1
  | appending prev verdict scanned => exact h.1
  | pushing prev verdict state now => exact h.1
  | sweeping state now => exact h.1
  | saving origin state =>
    cases origin with
    | scan prev verdict pushed =>
      cases pushed with
      | false => exact h.1
      | true => cases hfinish
    | empty => exact h.1
    | failed => exact h.1
    | sweep => cases hscan

theorem pushesKnown_step {x y : Sys × List Int} {e : Event} (h : PushesKnown x)
    (hfinish : finishesPush x.1 e = true)
    (hstep : ((machine cfg).withHistory recordPush).step x e = some y) : PushesKnown y := by
  obtain ⟨s, times⟩ := x
  obtain ⟨t, times'⟩ := y
  obtain ⟨hmove, rfl⟩ := (machine cfg).step_withHistory.mp hstep
  obtain ⟨hspaced, hknows⟩ := h
  cases transition_of_step hmove with
  | markSeen => exact ⟨hspaced, hknows.userAction rfl⟩
  | revive => exact ⟨hspaced, hknows.userAction rfl⟩
  | beginScan =>
    have hread := Knows.getState hknows cfg.textMatch
    exact ⟨hspaced, hknows, hread⟩
  | beginSweep hdue =>
    have hread := Knows.getState hknows cfg.textMatch
    exact ⟨hspaced, hknows, hread, (Bool.and_eq_true_iff.mp hdue).2⟩
  | beginFailed =>
    have hread := Knows.getState hknows cfg.textMatch
    exact ⟨hspaced, hknows, hread.of_last rfl⟩
  | noSignals => exact ⟨hspaced, hknows.1, hknows.2.of_last rfl⟩
  | assessedNew hnew => exact ⟨hspaced, hknows⟩
  | assessedNone hnone => exact ⟨hspaced, holderKnows_decidePush hknows.1 hknows.2 hknows.2⟩
  | scanError => exact ⟨hspaced, hknows.1⟩
  | appended =>
    obtain ⟨hstored, hprev⟩ := hknows
    obtain ⟨hfst, hsnd⟩ := scanFields_appendTimeline _ _ _
    exact ⟨hspaced, holderKnows_decidePush (hstored.congr hfst) hprev (hstored.congr hsnd)⟩
  | pushed =>
    obtain ⟨-, -, hprev, hcool⟩ := hknows
    have hapart := apart_of_cooledDown hprev hcool
    exact ⟨List.pairwise_cons.mpr ⟨hapart, hspaced⟩, knows_push rfl hapart⟩
  | pushFailed =>
    obtain ⟨hstored, hstate, -, -⟩ := hknows
    refine ⟨hspaced, hstored, hstate.of_last ?_⟩
    unfold savedState
    rw [if_neg Bool.false_ne_true]
    split <;> rfl
  | sweepPushed =>
    obtain ⟨-, hstate, hcool⟩ := hknows
    have hapart := apart_of_cooledDown hstate hcool
    exact ⟨List.pairwise_cons.mpr ⟨hapart, hspaced⟩, knows_push rfl hapart⟩
  | sweepFailed => exact ⟨hspaced, hknows.1⟩
  | saved => exact ⟨hspaced, hknows.saved⟩
  | cancelled hscan => exact ⟨hspaced, hknows.cancelled hscan hfinish⟩

/-- In every run in which no scan is ended between its push and its save, any two pushes are at
least the cooldown apart. -/
theorem pushes_spaced {stored : HookState} {as : List Event} {t : Sys} {times : List Int}
    (hrun : ((machine cfg).withHistory recordPush).run (⟨stored, none⟩, []) as = some (t, times))
    (hmeets : (machine cfg).Meets (fun s e => finishesPush s e = true) ⟨stored, none⟩ as) :
    Spaced times := by
  have hinit : PushesKnown (⟨stored, none⟩, []) :=
    ⟨List.Pairwise.nil, fun _ hmem => absurd hmem List.not_mem_nil⟩
  have hinv := Machine.run_invariant_of_meets _ (fun x e y h hfinish hstep =>
    pushesKnown_step h hfinish hstep) hinit ((machine cfg).meets_withHistory recordPush [] hmeets) hrun
  exact hinv.1

def minute : Int := 60 * 1000000

/-- A scan pushes, a second one has to wait, and the sweep pushes for it half an hour later. -/
theorem pushes_spaced_sweep : Spaced [30 * minute, 0] := by
  obtain ⟨⟨t, times⟩, hrun, htimes⟩ := Option.map_eq_some_iff.mp
    (show ((((machine alertHook).withHistory recordPush).run (⟨initialState [], none⟩, [])
      (scanToPush [alertEntry "1" "talks begin"] 0 ++ [.pushed, .saved] ++
        scanToPush [alertEntry "12" "talks fail"] (10 * minute) ++ [.saved] ++
        [.beginSweep (30 * minute), .pushed, .saved])).map Prod.snd) = some [30 * minute, 0] by decide)
  exact htimes ▸ pushes_spaced hrun (by decide)

/-- The scan is ended when its push has gone through and the lock of the store is taken. Ten
minutes later the next scan pushes. -/
theorem pushes_tenMinutesApart : ∃ t times,
    ((machine alertHook).withHistory recordPush).run (⟨initialState [], none⟩, [])
        (scanToPush [alertEntry "1" "talks begin"] 0 ++ [.pushed, .cancelled] ++
          [.beginFailed 0, .saved] ++
          scanToPush [alertEntry "12" "talks fail"] (10 * minute) ++ [.pushed]) = some (t, times) ∧
      ¬Spaced times := by
  obtain ⟨⟨t, times⟩, hrun, htimes⟩ := Option.map_eq_some_iff.mp
    (show ((((machine alertHook).withHistory recordPush).run (⟨initialState [], none⟩, [])
      (scanToPush [alertEntry "1" "talks begin"] 0 ++ [.pushed, .cancelled] ++
        [.beginFailed 0, .saved] ++
        scanToPush [alertEntry "12" "talks fail"] (10 * minute) ++ [.pushed])).map Prod.snd) =
      some [10 * minute, 0] by decide)
  obtain rfl : times = [10 * minute, 0] := htimes
  refine ⟨t, _, hrun, ?_⟩
  unfold Spaced
  decide

end NeuralHub.Hooks
