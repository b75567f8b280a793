/-
NeuralHub.Hooks.UnseenCount — the counter of unseen entries and the
timeline agree as long as nothing unseen falls out of it.

The timeline keeps its newest hundred entries. `append_timeline` adds to
the counter the new entries that stay, and takes nothing off it for the
old entries that have to go. So the two part ways at the first append
that drops an old entry nobody has seen, and not before
(`agrees_iff_keepsUnseen`); `markSeen` brings them together again.

A state that is saved is one that the store has handed out at some time,
with other scan fields, and it may be old.
-/
import NeuralHub.Hooks.Store
import NeuralHub.Lib.Machine

namespace NeuralHub.Hooks

open NeuralHub.Lib

/-! ## The operations of a store -/

structure StoreRun where
  stored : HookState
  /-- the states that the store has handed out -/
  obtained : List HookState
  deriving DecidableEq, Repr

inductive StoreAction
  | appendTimeline (entries : List TimelineEntry)
  | markSeen
  | revive
  | getState
  /-- `save_state` of a state that was handed out, with other scan fields -/
  | saveState (state : HookState)
  deriving DecidableEq, Repr

/-- `state` is `other` up to the fields that a scan changes. -/
def SameTimeline (state other : HookState) : Prop :=
  state.timeline = other.timeline ∧ state.unseenCount = other.unseenCount

instance (state other : HookState) : Decidable (SameTimeline state other) :=
  inferInstanceAs (Decidable (_ ∧ _))

variable (textMatch : Content → Content → Bool) (parseTs : String → Int)

def storeStep (s : StoreRun) : StoreAction → Option StoreRun
  | .appendTimeline entries =>
    let appended := appendTimeline textMatch parseTs s.stored entries
    some ⟨appended.1, appended.2 :: s.obtained⟩
  | .markSeen => some ⟨markSeen s.stored, markSeen s.stored :: s.obtained⟩
  | .revive => some ⟨revive s.stored, revive s.stored :: s.obtained⟩
  | .getState => some { s with obtained := getState textMatch s.stored :: s.obtained }
  | .saveState state =>
    if ∃ other ∈ s.obtained, SameTimeline state other then some { s with stored := state } else none

def storeMachine : Machine StoreRun StoreAction := ⟨storeStep textMatch parseTs⟩

def StoreRun.initial (health : List SourceHealth) : StoreRun := ⟨initialState health, []⟩

/-! ## Agreement -/

/-- At most a hundred entries, no two of them duplicates, and the counter counts the new ones. -/
structure Agrees (state : HookState) : Prop where
  length_le : state.timeline.length ≤ maxTimeline
  distinct : state.timeline.Pairwise fun a b => sameEntry textMatch a b = false
  unseen : state.unseenCount = state.timeline.countP (·.isNew)

/-- An append leaves the old entries that nobody has seen in the timeline. -/
def keepsUnseen (s : StoreRun) : StoreAction → Prop
  | .appendTimeline entries =>
    ∀ entry ∈ (mergedTimeline textMatch parseTs s.stored entries).drop maxTimeline,
      entry.isNew = true → entry ∈ markedEntries textMatch s.stored entries
  | _ => True

instance (s : StoreRun) (a : StoreAction) : Decidable (keepsUnseen textMatch parseTs s a) := by
  unfold keepsUnseen
  split <;> infer_instance

variable {textMatch parseTs}

theorem Agrees.congr {state other : HookState} (h : Agrees textMatch other)
    (hsame : SameTimeline state other) : Agrees textMatch state := by
  obtain ⟨htimeline, hcount⟩ := hsame
  exact ⟨htimeline ▸ h.length_le, htimeline ▸ h.distinct, by rw [hcount, htimeline, h.unseen]⟩

theorem agrees_markSeen {state : HookState} (h : Agrees textMatch state) :
    Agrees textMatch (markSeen state) := by
  refine ⟨?_, ?_, ?_⟩
  · show (state.timeline.map _).length ≤ maxTimeline
    rw [List.length_map]
    exact h.length_le
  · exact List.pairwise_map.mpr h.distinct
  · show 0 = (state.timeline.map _).countP _
    rw [List.countP_map]
    symm
    rw [List.countP_eq_zero]
    simp

/-! ## Appending -/

theorem countP_eq_countP_iff {α : Type*} {p q : α → Bool} {xs : List α}
    (h : ∀ x ∈ xs, p x = true → q x = true) :
    xs.countP p = xs.countP q ↔ ∀ x ∈ xs, q x = true → p x = true := by
  induction xs with
  | nil => simp
  | cons x xs ih =>
    obtain ⟨hx, hxs⟩ := List.forall_mem_cons.mp h
    have hle := List.countP_mono_left hxs
    rw [List.forall_mem_cons, ← ih hxs, List.countP_cons, List.countP_cons]
    cases hp : p x with
    | true =>
      rw [hx hp]
      simp
    | false =>
      cases hq : q x with
      | true =>
        simp
        omega
      | false => simp

theorem isNew_of_mem_markedEntries {state : HookState} {entries : List TimelineEntry}
    {entry : TimelineEntry} (h : entry ∈ markedEntries textMatch state entries) :
    entry.isNew = true := by
  obtain ⟨_, -, rfl⟩ := List.mem_map.mp (filterNewEntries_sublist.subset h)
  rfl

/-- An old entry is not among the new ones, since it is a duplicate of itself. -/
theorem notMem_markedEntries (hrefl : ∀ a, textMatch a a = true) {state : HookState}
    {entries : List TimelineEntry} {entry : TimelineEntry} (h : entry ∈ state.timeline) :
    entry ∉ markedEntries textMatch state entries := by
  intro hmem
  have hself : sameEntry textMatch entry entry = false := same_filterNewEntries hmem h
  rw [sameEntry, hrefl] at hself
  cases hself

section
variable {state : HookState} (hsymm : ∀ a b, textMatch a b = textMatch b a)
include hsymm

theorem Agrees.toDistinct (h : Agrees textMatch state) : Distinct textMatch state.timeline :=
  h.distinct.imp fun {a b} hab => (hsymm b.content a.content).trans hab

theorem pairwise_mergedTimeline (h : Agrees textMatch state) (entries : List TimelineEntry) :
    (mergedTimeline textMatch parseTs state entries).Pairwise
      fun a b => sameEntry textMatch a b = false := by
  have hpair : (markedEntries textMatch state entries ++ state.timeline).Pairwise
      fun a b => sameEntry textMatch a b = false := by
    refine List.pairwise_append.mpr ⟨?_, h.distinct, ?_⟩
    · exact distinct_filterNewEntries.imp fun {a b} hab => (hsymm a.content b.content).trans hab
    · exact fun a ha b hb => same_filterNewEntries ha hb
  refine ((mergedTimeline_perm textMatch parseTs state entries).pairwise_iff ?_).mpr hpair
  exact fun {a b} hab => (hsymm b.content a.content).trans hab

/-- The counter stays right exactly when no unseen old entry is dropped. -/
theorem agrees_appendTimeline_iff (hrefl : ∀ a, textMatch a a = true) (h : Agrees textMatch state)
    (entries : List TimelineEntry) :
    Agrees textMatch (appendTimeline textMatch parseTs state entries).1 ↔
      ∀ entry ∈ (mergedTimeline textMatch parseTs state entries).drop maxTimeline,
        entry.isNew = true → entry ∈ markedEntries textMatch state entries := by
  have hperm := mergedTimeline_perm textMatch parseTs state entries
  unfold appendTimeline
  rw [compactState_eq_self (h.toDistinct hsymm)]
  dsimp only
  split
  · rename_i hnone
    have hdrop : (mergedTimeline textMatch parseTs state entries).drop maxTimeline = [] := by
      rw [List.drop_eq_nil_iff, hperm.length_eq, hnone]
      exact h.length_le
    rw [hdrop]
    simp [h]
  · set marked := markedEntries textMatch state entries with hmarked
    set merged := mergedTimeline textMatch parseTs state entries with hmerged
    have hnew : merged.countP (·.isNew) = marked.length + state.timeline.countP (·.isNew) := by
      rw [hperm.countP_eq, List.countP_append]
      congr 1
      exact List.countP_eq_length.mpr fun _ hmem => isNew_of_mem_markedEntries hmem
    have hkept : merged.countP (fun entry => decide (entry ∈ marked)) = marked.length := by
      rw [hperm.countP_eq, List.countP_append]
      have hold : state.timeline.countP (fun entry => decide (entry ∈ marked)) = 0 := by
        rw [List.countP_eq_zero]
        intro entry hmem
        simpa using notMem_markedEntries hrefl hmem
      have hall : marked.countP (fun entry => decide (entry ∈ marked)) = marked.length :=
        List.countP_eq_length.mpr fun _ hmem => decide_eq_true hmem
      omega
    have hdropped : (merged.drop maxTimeline).countP (fun entry => decide (entry ∈ marked)) =
        (merged.drop maxTimeline).countP (·.isNew) ↔
          ∀ entry ∈ merged.drop maxTimeline, entry.isNew = true → decide (entry ∈ marked) = true :=
      countP_eq_countP_iff fun _ _ hmem => isNew_of_mem_markedEntries (of_decide_eq_true hmem)
    have hcut : ∀ p : TimelineEntry → Bool, merged.countP p =
        (merged.take maxTimeline).countP p + (merged.drop maxTimeline).countP p := by
      intro p
      rw [← List.countP_append, List.take_append_drop]
    have hnewCut := hcut (·.isNew)
    have hkeptCut := hcut fun entry => decide (entry ∈ marked)
    have hcount := h.unseen
    simp only [decide_eq_true_eq] at hdropped
    constructor
    · intro hagrees
      have hunseen : state.unseenCount + (merged.take maxTimeline).countP _ =
          (merged.take maxTimeline).countP (·.isNew) := hagrees.unseen
      exact hdropped.mp (by omega)
    · intro hkeeps
      have hequal := hdropped.mpr hkeeps
      refine ⟨List.length_take_le _ _, ?_, ?_⟩
      · exact (pairwise_mergedTimeline hsymm h entries).sublist (List.take_sublist _ _)
      · show state.unseenCount + (merged.take maxTimeline).countP _ =
          (merged.take maxTimeline).countP (·.isNew)
        omega

/-! ## Runs -/

/-- The state and all that were handed out agree. -/
def AllAgree (textMatch : Content → Content → Bool) (s : StoreRun) : Prop :=
  Agrees textMatch s.stored ∧ ∀ state ∈ s.obtained, Agrees textMatch state

variable {s t : StoreRun} {a : StoreAction}

theorem allAgree_step (hrefl : ∀ a, textMatch a a = true) (h : AllAgree textMatch s)
    (hkeeps : keepsUnseen textMatch parseTs s a)
    (hstep : (storeMachine textMatch parseTs).step s a = some t) : AllAgree textMatch t := by
  obtain ⟨hstored, hobtained⟩ := h
  cases a with
  | appendTimeline entries =>
    obtain rfl : ⟨(appendTimeline textMatch parseTs s.stored entries).1,
      (appendTimeline textMatch parseTs s.stored entries).2 :: s.obtained⟩ = t :=
        Option.some.inj hstep
    have hagrees := (agrees_appendTimeline_iff hsymm hrefl hstored entries).mpr hkeeps
    refine ⟨hagrees, List.forall_mem_cons.mpr ⟨?_, hobtained⟩⟩
    rw [appendTimeline_eq parseTs (hstored.toDistinct hsymm)]
    exact hagrees
  | markSeen =>
    obtain rfl := Option.some.inj hstep
    have hagrees := agrees_markSeen hstored
    exact ⟨hagrees, List.forall_mem_cons.mpr ⟨hagrees, hobtained⟩⟩
  | revive =>
    obtain rfl := Option.some.inj hstep
    have hagrees : Agrees textMatch (revive s.stored) := hstored.congr ⟨rfl, rfl⟩
    exact ⟨hagrees, List.forall_mem_cons.mpr ⟨hagrees, hobtained⟩⟩
  | getState =>
    obtain rfl := Option.some.inj hstep
    have hsame : getState textMatch s.stored = s.stored :=
      compactState_eq_self (hstored.toDistinct hsymm)
    exact ⟨hstored, List.forall_mem_cons.mpr ⟨hsame.symm ▸ hstored, hobtained⟩⟩
  | saveState state =>
    obtain ⟨⟨other, hother, hsame⟩, heq⟩ := Option.ite_none_right_eq_some.mp
      (hstep : (if ∃ other ∈ s.obtained, SameTimeline state other
        then some { s with stored := state } else none) = some t)
    obtain rfl := Option.some.inj heq
    exact ⟨(hobtained other hother).congr hsame, hobtained⟩

theorem not_agrees_step (hrefl : ∀ a, textMatch a a = true) (h : AllAgree textMatch s)
    (hdrops : ¬keepsUnseen textMatch parseTs s a)
    (hstep : (storeMachine textMatch parseTs).step s a = some t) : ¬Agrees textMatch t.stored := by
  cases a with
  | appendTimeline entries =>
    have ht : (appendTimeline textMatch parseTs s.stored entries).1 = t.stored :=
      congrArg StoreRun.stored (Option.some.inj hstep)
    rw [← ht]
    exact fun hagrees => hdrops ((agrees_appendTimeline_iff hsymm hrefl h.1 entries).mp hagrees)
  | markSeen => exact absurd trivial hdrops
  | revive => exact absurd trivial hdrops
  | getState => exact absurd trivial hdrops
  | saveState state => exact absurd trivial hdrops

end

/-- From the initial state of a hook, counter and timeline agree throughout a run of store
operations if and only if no append drops an old entry that nobody has seen. -/
theorem agrees_iff_keepsUnseen (textMatch : Content → Content → Bool) (parseTs : String → Int)
    (hrefl : ∀ a, textMatch a a = true) (hsymm : ∀ a b, textMatch a b = textMatch b a)
    (health : List SourceHealth) {as : List StoreAction} {t : StoreRun}
    (hrun : (storeMachine textMatch parseTs).run (.initial health) as = some t) :
    (storeMachine textMatch parseTs).Always (fun s => Agrees textMatch s.stored)
        (.initial health) as ↔
      (storeMachine textMatch parseTs).Meets (keepsUnseen textMatch parseTs)
        (.initial health) as := by
  have hinitial : AllAgree textMatch (.initial health) :=
    ⟨⟨Nat.zero_le _, List.Pairwise.nil, rfl⟩, fun _ hmem => absurd hmem List.not_mem_nil⟩
  refine (storeMachine textMatch parseTs).always_iff_meets (fun _ h => h.1) ?_ ?_ hinitial hrun
  · exact fun s a t h hkeeps hstep => allAgree_step hsymm hrefl h hkeeps hstep
  · exact fun s a t h hdrops hstep => not_agrees_step hsymm hrefl h hdrops hstep

def exactMatch (a b : Content) : Bool := decide (a = b)

theorem exactMatch_refl (a : Content) : exactMatch a a = true := decide_eq_true rfl

theorem exactMatch_symm (a b : Content) : exactMatch a b = exactMatch b a :=
  decide_eq_decide.mpr eq_comm

/-- The entry with the text `x…x`. -/
def numberedEntry (n : Nat) : TimelineEntry :=
  { ts := "", text := String.ofList (List.replicate n 'x'), source := "" }

/-- A scan finds two entries, a second scan finds one of them again. -/
theorem agrees_foundAgain :
    (storeMachine exactMatch fun _ => 0).Always (fun s => Agrees exactMatch s.stored) (.initial [])
      [.appendTimeline [numberedEntry 1, numberedEntry 2], .markSeen,
        .appendTimeline [numberedEntry 2, numberedEntry 3], .getState] :=
  (agrees_iff_keepsUnseen exactMatch (fun _ => 0) exactMatch_refl exactMatch_symm [] rfl).mpr
    (by decide)

/-! ## A timeline that is full -/

section
variable {textMatch : Content → Content → Bool} {entries : List TimelineEntry}
variable {entry : TimelineEntry}

theorem markNew_eq_self (h : ∀ entry ∈ entries, entry.isNew = true) : markNew entries = entries := by
  refine (List.map_congr_left fun entry hentry => ?_).trans (List.map_id _)
  obtain ⟨ts, text, isNew, source⟩ := entry
  have hnew : isNew = true := h _ hentry
  rw [hnew]
  rfl

/-- What is appended to the initial state is its timeline. -/
theorem timeline_append_initialState (hdistinct : Distinct textMatch entries)
    (hnew : ∀ entry ∈ entries, entry.isNew = true) (hlength : entries.length = maxTimeline) :
    (appendTimeline textMatch (fun _ => 0) (initialState []) entries).1.timeline.Perm entries := by
  have hmarked : markedEntries textMatch (initialState []) entries = entries := by
    rw [markedEntries, markNew_eq_self hnew]
    exact filterNewEntries_eq_self hdistinct fun _ _ _ hold => absurd hold List.not_mem_nil
  have hmerged : (mergedTimeline textMatch (fun _ => 0) (initialState []) entries).Perm entries := by
    have hperm := mergedTimeline_perm textMatch (fun _ => 0) (initialState []) entries
    rw [hmarked] at hperm
    exact hperm.trans (List.Perm.of_eq (List.append_nil entries))
  have hne : markedEntries textMatch (initialState []) entries ≠ [] := by
    rw [hmarked]
    rintro rfl
    cases hlength
  have htimeline : (appendTimeline textMatch (fun _ => 0) (initialState []) entries).1.timeline =
      (mergedTimeline textMatch (fun _ => 0) (initialState []) entries).take maxTimeline :=
    congrArg (fun x : HookState × HookState => x.1.timeline) (if_neg hne)
  rwa [htimeline, List.take_of_length_le (Nat.le_of_eq (hmerged.length_eq.trans hlength))]

theorem mergedTimeline_const {state : HookState}
    (h : markedEntries textMatch state [entry] = [entry]) :
    mergedTimeline textMatch (fun _ => 0) state [entry] =
      entry :: sortTimeline (fun _ => 0) state.timeline := by
  rw [mergedTimeline, h, List.singleton_append]
  show List.orderedInsert _ entry (sortTimeline (fun _ => 0) state.timeline) = _
  cases sortTimeline (fun _ => 0) state.timeline with
  | nil => rfl
  | cons old rest => exact if_pos (Int.le_refl 0)

/-- Another entry of the same time drops the last of a hundred. -/
theorem drops_unseen (hrefl : ∀ a, textMatch a a = true) {state : HookState}
    (htimeline : state.timeline.Perm entries) (hnew : ∀ entry ∈ entries, entry.isNew = true)
    (hlength : entries.length = maxTimeline) (hentry : entry.isNew = true)
    (hfresh : ∀ old ∈ entries, sameEntry textMatch entry old = false) :
    ¬∀ dropped ∈ (mergedTimeline textMatch (fun _ => 0) state [entry]).drop maxTimeline,
      dropped.isNew = true → dropped ∈ markedEntries textMatch state [entry] := by
  have hmarked : markedEntries textMatch state [entry] = [entry] := by
    rw [markedEntries, markNew_eq_self (by simpa using hentry)]
    refine filterNewEntries_eq_self (List.pairwise_singleton _ _) fun e he old hold => ?_
    rw [List.mem_singleton.mp he]
    exact hfresh old (htimeline.mem_iff.mp hold)
  have hsort : (sortTimeline (fun _ => 0) state.timeline).Perm entries :=
    (List.perm_insertionSort _ _).trans htimeline
  rw [mergedTimeline_const hmarked]
  intro hkeeps
  obtain ⟨dropped, hdropped⟩ : ∃ dropped,
      dropped ∈ (entry :: sortTimeline (fun _ => 0) state.timeline).drop maxTimeline := by
    refine List.exists_mem_of_length_pos ?_
    rw [List.length_drop, List.length_cons, hsort.length_eq, hlength]
    exact Nat.lt_of_sub_pos (by decide)
  have hold : dropped ∈ sortTimeline (fun _ => 0) state.timeline := by
    have hdrop : (entry :: sortTimeline (fun _ => 0) state.timeline).drop maxTimeline =
        (sortTimeline (fun _ => 0) state.timeline).drop 99 := rfl
    rw [hdrop] at hdropped
    exact List.mem_of_mem_drop hdropped
  have hmem := hsort.mem_iff.mp hold
  exact notMem_markedEntries hrefl (htimeline.mem_iff.mpr hmem) (hkeeps dropped hdropped (hnew _ hmem))

theorem not_always_agrees (hrefl : ∀ a, textMatch a a = true)
    (hsymm : ∀ a b, textMatch a b = textMatch b a) (hdistinct : Distinct textMatch entries)
    (hnew : ∀ entry ∈ entries, entry.isNew = true) (hlength : entries.length = maxTimeline)
    (hentry : entry.isNew = true) (hfresh : ∀ old ∈ entries, sameEntry textMatch entry old = false) :
    ¬(storeMachine textMatch fun _ => 0).Always (fun s => Agrees textMatch s.stored) (.initial [])
      [.appendTimeline entries, .appendTimeline [entry]] := by
  rw [agrees_iff_keepsUnseen textMatch (fun _ => 0) hrefl hsymm [] rfl]
  rintro ⟨-, hrest⟩
  have htimeline := timeline_append_initialState hdistinct hnew hlength
  exact drops_unseen hrefl htimeline hnew hlength hentry hfresh (hrest _ rfl).1

end

def numberedEntries (n : Nat) : List TimelineEntry := (List.range n).map numberedEntry

theorem isNew_numberedEntries (n : Nat) : ∀ entry ∈ numberedEntries n, entry.isNew = true := by
  intro entry hmem
  obtain ⟨m, -, rfl⟩ := List.mem_map.mp hmem
  rfl

theorem distinct_numberedEntries (n : Nat) : Distinct exactMatch (numberedEntries n) := by
  refine List.pairwise_map.mpr (List.nodup_range.imp fun {a b} hne => ?_)
  refine decide_eq_false fun heq => hne ?_
  have htext := congrArg String.toList (congrArg Content.text heq)
  have hlength := congrArg List.length htext
  simpa [TimelineEntry.content, numberedEntry] using hlength.symm

theorem fresh_numberedEntry (n : Nat) :
    ∀ old ∈ numberedEntries n, sameEntry exactMatch (numberedEntry n) old = false := by
  have hdistinct := distinct_numberedEntries (n + 1)
  rw [numberedEntries, List.range_succ, List.map_append] at hdistinct
  exact fun old hold => (List.pairwise_append.mp hdistinct).2.2 old hold _ (List.mem_singleton_self _)

/-- After a hundred entries at one time another one drops the last of them, unseen. -/
theorem unseen_dropped :
    ¬(storeMachine exactMatch fun _ => 0).Always (fun s => Agrees exactMatch s.stored) (.initial [])
      [.appendTimeline (numberedEntries maxTimeline),
        .appendTimeline [numberedEntry maxTimeline]] :=
  not_always_agrees exactMatch_refl exactMatch_symm (distinct_numberedEntries maxTimeline)
    (isNew_numberedEntries maxTimeline) (by simp [numberedEntries]) rfl
    (fresh_numberedEntry maxTimeline)

end NeuralHub.Hooks
