/-
NeuralHub.Hooks.Store — the timeline of a hook in the `HookStore`:
`dedupe.py` and `store.py`.

Every call of the store is atomic, under the lock of the store, and what
it keeps for a hook is a `HookState`. Two entries count as one when
`textMatch` says so of what they say (`_text_match` goes by the likeness
of the texts); the entry that is looked at is its first argument.
`parseTs` is the time that the text of an entry's `ts` stands for. Both
are parameters, and nothing is assumed of them here.
-/
import NeuralHub.Hooks.Types
import Mathlib.Data.List.Sort
import Mathlib.Data.List.Induction

namespace NeuralHub.Hooks

def maxTimeline : Nat := 100

section
variable (textMatch : Content → Content → Bool) (parseTs : String → Int)

/-! ## `dedupe` -/

def sameEntry (first second : TimelineEntry) : Bool := textMatch first.content second.content

/-- `filter_new_entries`: the entries that are no duplicate of an existing
one or of an earlier one among themselves. -/
def filterNewEntries (entries existing : List TimelineEntry) : List TimelineEntry :=
  entries.foldl (fun result entry =>
    if existing.any (sameEntry textMatch entry) || result.any (sameEntry textMatch entry) then result else result ++ [entry]) []

def compactState (state : HookState) : HookState :=
  let timeline := filterNewEntries textMatch state.timeline []
  if timeline.length = state.timeline.length then state
  else { state with timeline, unseenCount := min state.unseenCount timeline.length }

/-! ## `HookStore` -/

def initialState (health : List SourceHealth) : HookState :=
  { summary := "尚未扫描", sourceHealth := health }

/-- `get_state`. -/
def getState (stored : HookState) : HookState := compactState textMatch stored

/-- `entry.model_copy(update={"is_new": True})`, for all of them. -/
def markNew (entries : List TimelineEntry) : List TimelineEntry :=
  entries.map fun entry => { entry with isNew := true }

/-- Newest first; of two entries with one time the one that stood first stays first. -/
def sortTimeline (entries : List TimelineEntry) : List TimelineEntry :=
  entries.insertionSort fun a b => parseTs b.ts ≤ parseTs a.ts

/-- The new entries among those that are to be appended. -/
def markedEntries (state : HookState) (entries : List TimelineEntry) : List TimelineEntry :=
  filterNewEntries textMatch (markNew entries) state.timeline

/-- The timeline with the new entries, before it is cut. -/
def mergedTimeline (state : HookState) (entries : List TimelineEntry) : List TimelineEntry :=
  sortTimeline parseTs (markedEntries textMatch state entries ++ state.timeline)

/-- `append_timeline`: what is stored, and what is returned. -/
def appendTimeline (stored : HookState) (entries : List TimelineEntry) : HookState × HookState :=
  let state := compactState textMatch stored
  let marked := markedEntries textMatch state entries
  if marked = [] then (stored, state)
  else
    let combined := (mergedTimeline textMatch parseTs state entries).take maxTimeline
    let keptNew := combined.countP fun entry => decide (entry ∈ marked)
    let state := { state with timeline := combined, unseenCount := state.unseenCount + keptNew }
    (state, state)

def markSeen (stored : HookState) : HookState :=
  { stored with
    timeline := stored.timeline.map fun entry => { entry with isNew := false }
    unseenCount := 0 }

def revive (stored : HookState) : HookState :=
  { stored with status := .developing, lastScanned := none, pendingPush := false }

end

/-! ## Duplicates -/

section
variable {textMatch : Content → Content → Bool}
variable {entries existing : List TimelineEntry}

/-- The second of the two entries would have been filtered. -/
def Distinct (textMatch : Content → Content → Bool) (timeline : List TimelineEntry) : Prop :=
  timeline.Pairwise fun a b => sameEntry textMatch b a = false

theorem filterNewEntries_concat (entries existing : List TimelineEntry) (entry : TimelineEntry) :
    filterNewEntries textMatch (entries ++ [entry]) existing =
      let result := filterNewEntries textMatch entries existing
      if existing.any (sameEntry textMatch entry) || result.any (sameEntry textMatch entry) then result
      else result ++ [entry] := by
  rw [filterNewEntries, List.foldl_append]
  rfl

theorem filterNewEntries_sublist :
    (filterNewEntries textMatch entries existing).Sublist entries := by
  induction entries using List.reverseRecOn with
  | nil => exact List.Sublist.slnil
  | append_singleton entries entry ih =>
    rw [filterNewEntries_concat]
    dsimp only
    split
    · exact ih.trans (List.sublist_append_left _ _)
    · exact ih.append (List.Sublist.refl _)

theorem distinct_filterNewEntries : Distinct textMatch (filterNewEntries textMatch entries existing) := by
  induction entries using List.reverseRecOn with
  | nil => exact List.Pairwise.nil
  | append_singleton entries entry ih =>
    rw [filterNewEntries_concat]
    dsimp only
    split
    · exact ih
    · rename_i hnew
      simp only [Bool.or_eq_true, List.any_eq_true, not_or, not_exists, not_and] at hnew
      refine List.pairwise_append.mpr ⟨ih, List.pairwise_singleton _ _, ?_⟩
      intro a ha b hb
      rw [List.mem_singleton.mp hb]
      exact Bool.not_eq_true _ ▸ hnew.2 a ha

theorem same_filterNewEntries {entry old : TimelineEntry}
    (h : entry ∈ filterNewEntries textMatch entries existing) (hold : old ∈ existing) :
    sameEntry textMatch entry old = false := by
  induction entries using List.reverseRecOn with
  | nil => cases h
  | append_singleton entries last ih =>
    rw [filterNewEntries_concat] at h
    dsimp only at h
    split at h
    · exact ih h
    · rename_i hnew
      simp only [Bool.or_eq_true, List.any_eq_true, not_or, not_exists, not_and] at hnew
      rcases List.mem_append.mp h with hmem | hmem
      · exact ih hmem
      · rw [List.mem_singleton.mp hmem]
        exact Bool.not_eq_true _ ▸ hnew.1 old hold

/-- Nothing is filtered where there are no duplicates. -/
theorem filterNewEntries_eq_self (hdistinct : Distinct textMatch entries)
    (h : ∀ entry ∈ entries, ∀ old ∈ existing, sameEntry textMatch entry old = false) :
    filterNewEntries textMatch entries existing = entries := by
  induction entries using List.reverseRecOn with
  | nil => rfl
  | append_singleton entries entry ih =>
    obtain ⟨hentries, -, hlast⟩ := List.pairwise_append.mp hdistinct
    have hearlier := ih hentries fun e he => h e (List.mem_append_left _ he)
    have hold : existing.any (sameEntry textMatch entry) = false := by
      simpa using fun old hmem => h entry (by simp) old hmem
    have hresult : entries.any (sameEntry textMatch entry) = false := by
      simpa using fun e he => hlast e he entry (List.mem_singleton_self _)
    rw [filterNewEntries_concat, hearlier]
    dsimp only
    rw [hold, hresult]
    rfl

theorem compactState_eq_self {state : HookState} (h : Distinct textMatch state.timeline) :
    compactState textMatch state = state := by
  have hall : filterNewEntries textMatch state.timeline [] = state.timeline :=
    filterNewEntries_eq_self h fun _ _ _ hold => absurd hold List.not_mem_nil
  rw [compactState, hall]
  exact if_pos rfl

theorem distinct_compactState (state : HookState) :
    Distinct textMatch (compactState textMatch state).timeline := by
  unfold compactState
  dsimp only
  split
  · rename_i hlength
    have hsub : (filterNewEntries textMatch state.timeline []).Sublist state.timeline :=
      filterNewEntries_sublist
    rw [← hsub.eq_of_length hlength]
    exact distinct_filterNewEntries
  · exact distinct_filterNewEntries

/-! ## Fields of a scan -/

/-- A state without its timeline and counter. -/
def HookState.scanFields (state : HookState) : HookState :=
  { state with timeline := [], unseenCount := 0 }

theorem scanFields_compactState (state : HookState) :
    (compactState textMatch state).scanFields = state.scanFields := by
  unfold compactState
  dsimp only
  split <;> rfl

theorem status_compactState (textMatch : Content → Content → Bool) (state : HookState) :
    (compactState textMatch state).status = state.status := by
  unfold compactState
  dsimp only
  split <;> rfl

/-- Appending leaves the fields of a scan alone. -/
theorem scanFields_appendTimeline (parseTs : String → Int) (state : HookState)
    (entries : List TimelineEntry) :
    (appendTimeline textMatch parseTs state entries).1.scanFields = state.scanFields ∧
      (appendTimeline textMatch parseTs state entries).2.scanFields = state.scanFields := by
  unfold appendTimeline
  dsimp only
  split
  · exact ⟨rfl, scanFields_compactState state⟩
  · exact ⟨scanFields_compactState state, scanFields_compactState state⟩

/-- What an append stores. -/
theorem appendTimeline_cases (parseTs : String → Int) (stored : HookState)
    (entries : List TimelineEntry) :
    let state := compactState textMatch stored
    let appended := (appendTimeline textMatch parseTs stored entries).1
    appended = stored ∨
      appended.timeline = (mergedTimeline textMatch parseTs state entries).take maxTimeline ∧
        appended.unseenCount = state.unseenCount + appended.timeline.countP fun entry =>
          decide (entry ∈ markedEntries textMatch state entries) := by
  unfold appendTimeline
  dsimp only
  split
  · exact Or.inl rfl
  · exact Or.inr ⟨rfl, rfl⟩

/-- Without duplicates in the stored timeline, what is returned is what is stored. -/
theorem appendTimeline_eq (parseTs : String → Int) {stored : HookState}
    (h : Distinct textMatch stored.timeline) (entries : List TimelineEntry) :
    (appendTimeline textMatch parseTs stored entries).2 =
      (appendTimeline textMatch parseTs stored entries).1 := by
  unfold appendTimeline
  dsimp only
  split
  · exact compactState_eq_self h
  · rfl

theorem mergedTimeline_perm (textMatch : Content → Content → Bool) (parseTs : String → Int)
    (state : HookState) (entries : List TimelineEntry) :
    (mergedTimeline textMatch parseTs state entries).Perm
      (markedEntries textMatch state entries ++ state.timeline) :=
  List.perm_insertionSort _ _

end

end NeuralHub.Hooks
