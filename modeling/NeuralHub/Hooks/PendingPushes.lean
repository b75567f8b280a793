/-
NeuralHub.Hooks.PendingPushes — an important entry is pushed or waits for
the sweep, as long as what waits stays in the digest.

An append stores the entries of a scan before the scan knows whether they
can be pushed, and `pending_push` is one flag for all that waits. A sweep
sends the digest, the first three entries of the timeline, and takes the
flag back; so does a scan that pushes. `delivers` says when that loses
nothing: a scan pushes only when nothing waited before it, a scan that
cannot push leaves in the digest what waits there and its own entries, and
so does a scan that is ended behind its append, where the flag must be set
already. The entries must also stay no duplicates of each other in their
new order, since reading the timeline drops a duplicate.

`Owed` is the invariant behind an append: what is not sent is new, or it
waited in the digest of the state that the scan began with.
-/
import NeuralHub.Hooks.Scan

namespace NeuralHub.Hooks

open NeuralHub.Lib

/-! ## What is stored and what is sent -/

structure PushLog where
  /-- what scans stored with the decision `push` -/
  important : List Content
  /-- what the successful pushes contained -/
  sent : List Content
  deriving DecidableEq, Repr

def contents (entries : List TimelineEntry) : List Content := entries.map (·.content)

def digest (state : HookState) : List Content := contents (digestVerdict state).newEntries

variable (cfg : ScanConfig)

def recordPending (s : Sys) (e : Event) (_ : Sys) (log : PushLog) : PushLog :=
  match e, s.holder with
  | .appended _, some (.appending _ verdict _) =>
    if verdict.decision = .push then
      { log with important := log.important ++ contents (addedEntries cfg s.stored verdict) }
    else log
  | .pushed, some (.pushing _ verdict _ _) =>
    { log with sent := log.sent ++ contents verdict.newEntries }
  | .pushed, some (.sweeping state _) => { log with sent := log.sent ++ digest state }
  | _, _ => log

/-- What is important was sent, or it is in the digest of a state that is pending. -/
def Covered (log : PushLog) (state : HookState) : Prop :=
  ∀ content ∈ log.important,
    content ∈ log.sent ∨ state.pendingPush = true ∧ content ∈ digest state

/-- A state in which the entries of a verdict wait, and what waited before. -/
def keepsWaiting (prev : HookState) (verdict : HookVerdict) (state : HookState) : Prop :=
  (∀ entry ∈ verdict.newEntries,
    entry.content ∈ contents state.timeline → entry.content ∈ digest state) ∧
  (prev.pendingPush = true → ∀ content ∈ digest prev, content ∈ digest state)

instance (prev : HookState) (verdict : HookVerdict) (state : HookState) :
    Decidable (keepsWaiting prev verdict state) := inferInstanceAs (Decidable (_ ∧ _))

/-- Which of two of these entries is looked at first makes no difference. -/
def SymmetricOn (entries : List TimelineEntry) : Prop :=
  ∀ a ∈ entries, ∀ b ∈ entries, sameEntry cfg.textMatch a b = sameEntry cfg.textMatch b a

instance (entries : List TimelineEntry) : Decidable (SymmetricOn cfg entries) :=
  inferInstanceAs (Decidable (∀ _ ∈ _, ∀ _ ∈ _, _ = _))

/-- The condition, see the head of the module. -/
def delivers (s : Sys) (e : Event) : Prop :=
  match e, s.holder with
  | .appended _, some (.appending _ verdict _) =>
    SymmetricOn cfg (s.stored.timeline ++ verdict.newEntries)
  | .pushed, some (.pushing prev _ _ _) => prev.pendingPush = false
  | .saved, some (.saving (.scan prev verdict false) state) =>
    verdict.decision = .push → keepsWaiting prev verdict state
  | .cancelled, some (.pushing prev verdict _ _) =>
    s.stored.pendingPush = true ∧ keepsWaiting prev verdict s.stored
  | .cancelled, some (.saving (.scan prev verdict false) _) =>
    verdict.decision = .push → s.stored.pendingPush = true ∧ keepsWaiting prev verdict s.stored
  | _, _ => True

instance (s : Sys) (e : Event) : Decidable (delivers cfg s e) := by
  unfold delivers
  split <;> infer_instance

def Event.isUserAction : Event → Bool
  | .markSeen | .revive => true
  | _ => false

variable {cfg} {log : PushLog} {stored state : HookState}

/-! ## Coverage -/

theorem Covered.congr (h : Covered log state) {other : HookState}
    (htimeline : other.timeline = state.timeline) (hpending : other.pendingPush = state.pendingPush) :
    Covered log other := by
  intro content hmem
  rcases h content hmem with hsent | ⟨hstate, hdigest⟩
  · exact Or.inl hsent
  · refine Or.inr ⟨hpending.trans hstate, ?_⟩
    rw [digest, digestVerdict, htimeline]
    exact hdigest

/-- A sweep sends all that waits. -/
theorem Covered.sweep (h : Covered log state) (other : HookState) :
    Covered { log with sent := log.sent ++ digest state } other := by
  intro content hmem
  rcases h content hmem with hsent | ⟨-, hdigest⟩
  · exact Or.inl (List.mem_append_left _ hsent)
  · exact Or.inl (List.mem_append_right _ hdigest)

/-- Behind the append of a scan: what is not sent is new, or waited when the scan began. -/
def Owed (log : PushLog) (prev : HookState) (verdict : HookVerdict) (timeline : List TimelineEntry) :
    Prop :=
  ∀ content ∈ log.important, content ∈ log.sent ∨
    (content ∈ contents verdict.newEntries ∧ content ∈ contents timeline) ∨
    prev.pendingPush = true ∧ content ∈ digest prev

theorem content_addedEntries {verdict : HookVerdict} {content : Content}
    (h : content ∈ contents (addedEntries cfg stored verdict)) :
    content ∈ contents verdict.newEntries ∧ content ∈ contents
      (appendTimeline cfg.textMatch cfg.parseTs stored verdict.newEntries).1.timeline := by
  obtain ⟨entry, hentry, rfl⟩ := List.mem_map.mp h
  obtain ⟨hstored, hmarked⟩ := List.mem_filter.mp hentry
  refine ⟨?_, List.mem_map_of_mem hstored⟩
  have hmark := filterNewEntries_sublist.subset (of_decide_eq_true hmarked)
  obtain ⟨original, horiginal, rfl⟩ := List.mem_map.mp hmark
  exact List.mem_map.mpr ⟨original, horiginal, rfl⟩

theorem owed_append (h : Covered log stored) (verdict : HookVerdict) :
    Owed { log with important := log.important ++ contents (addedEntries cfg stored verdict) }
      stored verdict
      (appendTimeline cfg.textMatch cfg.parseTs stored verdict.newEntries).1.timeline := by
  intro content hmem
  rcases List.mem_append.mp hmem with hold | hnew
  · rcases h content hold with hsent | hwaits
    · exact Or.inl hsent
    · exact Or.inr (Or.inr hwaits)
  · exact Or.inr (Or.inl (content_addedEntries hnew))

/-- A push sends all that is owed when nothing waited. -/
theorem Owed.push {prev : HookState} {verdict : HookVerdict} {timeline : List TimelineEntry}
    (h : Owed log prev verdict timeline) (hprev : prev.pendingPush = false) (other : HookState) :
    Covered { log with sent := log.sent ++ contents verdict.newEntries } other := by
  intro content hmem
  rcases h content hmem with hsent | ⟨hnew, -⟩ | ⟨hpending, -⟩
  · exact Or.inl (List.mem_append_left _ hsent)
  · exact Or.inl (List.mem_append_right _ hnew)
  · rw [hprev] at hpending
    cases hpending

/-- Without a push, all that is owed waits. -/
theorem Owed.wait {prev : HookState} {verdict : HookVerdict}
    (h : Owed log prev verdict state.timeline) (hpending : state.pendingPush = true)
    (hkeeps : keepsWaiting prev verdict state) : Covered log state := by
  obtain ⟨hnew, hold⟩ := hkeeps
  intro content hmem
  rcases h content hmem with hsent | ⟨hcontent, htimeline⟩ | ⟨hprev, hdigest⟩
  · exact Or.inl hsent
  · obtain ⟨entry, hentry, rfl⟩ := List.mem_map.mp hcontent
    exact Or.inr ⟨hpending, hnew entry hentry htimeline⟩
  · exact Or.inr ⟨hpending, hold hprev content hdigest⟩

/-! ## Duplicates behind an append -/

theorem distinct_appendTimeline {verdict : HookVerdict} (h : Distinct cfg.textMatch stored.timeline)
    (hsymm : SymmetricOn cfg (stored.timeline ++ verdict.newEntries)) :
    Distinct cfg.textMatch
      (appendTimeline cfg.textMatch cfg.parseTs stored verdict.newEntries).1.timeline := by
  rcases appendTimeline_cases cfg.parseTs stored verdict.newEntries with hsame | ⟨htimeline, -⟩
  · rw [hsame]
    exact h
  rw [htimeline, compactState_eq_self h]
  let marked := markedEntries cfg.textMatch stored verdict.newEntries
  -- a new entry has the content of one of the entries of the verdict
  have hmarked : ∀ entry ∈ marked, ∃ original ∈ verdict.newEntries,
      original.content = entry.content := by
    intro entry hmem
    obtain ⟨original, horiginal, rfl⟩ := List.mem_map.mp (filterNewEntries_sublist.subset hmem)
    exact ⟨original, horiginal, rfl⟩
  have hcontent : ∀ entry ∈ marked ++ stored.timeline,
      ∃ original ∈ stored.timeline ++ verdict.newEntries, original.content = entry.content := by
    intro entry hmem
    rcases List.mem_append.mp hmem with hnew | hold
    · obtain ⟨original, horiginal, heq⟩ := hmarked entry hnew
      exact ⟨original, List.mem_append_right _ horiginal, heq⟩
    · exact ⟨entry, List.mem_append_left _ hold, rfl⟩
  have hswap : ∀ a ∈ marked ++ stored.timeline, ∀ b ∈ marked ++ stored.timeline,
      sameEntry cfg.textMatch a b = sameEntry cfg.textMatch b a := by
    intro a ha b hb
    obtain ⟨a', ha', heqa⟩ := hcontent a ha
    obtain ⟨b', hb', heqb⟩ := hcontent b hb
    have hoff := hsymm a' ha' b' hb'
    simp only [sameEntry, heqa, heqb] at hoff
    exact hoff
  have hpair : (marked ++ stored.timeline).Pairwise fun a b =>
      sameEntry cfg.textMatch b a = false := by
    refine List.pairwise_append.mpr ⟨distinct_filterNewEntries, h, fun a ha b hb => ?_⟩
    rw [hswap b (List.mem_append_right _ hb) a (List.mem_append_left _ ha)]
    exact same_filterNewEntries ha hb
  have hboth : (marked ++ stored.timeline).Pairwise fun a b =>
      sameEntry cfg.textMatch a b = false ∧ sameEntry cfg.textMatch b a = false :=
    hpair.imp_of_mem fun {a b} ha hb hab => ⟨(hswap a ha b hb).trans hab, hab⟩
  have hmerged := (mergedTimeline_perm cfg.textMatch cfg.parseTs stored verdict.newEntries).pairwise_iff
    (fun {a b} hab => ⟨hab.2, hab.1⟩) |>.mpr hboth
  exact (hmerged.sublist (List.take_sublist _ _)).imp fun {a b} hab => hab.2

/-! ## The invariant -/

/-- What is known of the operation with the lock. -/
def HolderCovers (stored : HookState) (log : PushLog) : Option Op → Prop
  | none => Covered log stored
  | some (.scanning prev) => prev = stored ∧ Covered log stored
  | some (.appending prev verdict _) =>
    prev = stored ∧ Covered log stored ∧ verdict.decision = .push
  | some (.pushing prev verdict state _) =>
    state.timeline = stored.timeline ∧ Owed log prev verdict stored.timeline ∧
      verdict.decision = .push
  | some (.sweeping state _) => state = stored ∧ Covered log stored
  | some (.saving (.scan prev verdict false) state) =>
    state.timeline = stored.timeline ∧
      (verdict.decision = .push ∧ Owed log prev verdict stored.timeline ∧ state.pendingPush = true ∨
        verdict.decision ≠ .push ∧ Covered log state ∧ Covered log stored)
  | some (.saving _ state) =>
    state.timeline = stored.timeline ∧ Covered log state ∧ Covered log stored

def PushesCovered (cfg : ScanConfig) (x : Sys × PushLog) : Prop :=
  Distinct cfg.textMatch x.1.stored.timeline ∧ HolderCovers x.1.stored x.2 x.1.holder

/-- A scan pushes exactly when it has new entries. -/
theorem visibleVerdict_cases (verdict : HookVerdict) (state : HookState) :
    (visibleVerdict cfg verdict state).newEntries ≠ [] ∧
        (visibleVerdict cfg verdict state).decision = .push ∨
      (visibleVerdict cfg verdict state).newEntries = [] ∧
        (visibleVerdict cfg verdict state).decision = .drop := by
  unfold visibleVerdict
  dsimp only
  generalize (if cfg.materiality ≤ verdict.materiality then
    filterNewEntries cfg.textMatch verdict.newEntries state.timeline else []) = entries
  by_cases hnew : entries ≠ []
  · rw [if_pos hnew]
    exact Or.inl ⟨hnew, rfl⟩
  · rw [if_neg hnew]
    exact Or.inr ⟨rfl, rfl⟩

/-- A scan that drops saves what it began with, with other scan fields. -/
theorem holderCovers_drop {verdict : HookVerdict} (h : Covered log stored)
    (hdrop : verdict.decision = .drop) (now : Int) (scanned : List (String × Bool)) :
    HolderCovers stored log (some (decidePush stored stored verdict now scanned)) := by
  have hhold : shouldPush verdict stored now = false := by
    rw [shouldPush, hdrop]
    rfl
  have hsaved : ∀ state, savedState verdict false state now = state := by
    intro state
    simp [savedState, hdrop]
  unfold decidePush
  dsimp only
  rw [hhold, if_neg Bool.false_ne_true, hsaved]
  refine ⟨rfl, Or.inr ⟨?_, h.congr rfl rfl, h⟩⟩
  rw [hdrop]
  decide

/-- Behind its append a scan owes its entries. -/
theorem holderCovers_push {prev : HookState} {verdict : HookVerdict}
    (h : Owed log prev verdict stored.timeline) (hpush : verdict.decision = .push) (now : Int)
    (scanned : List (String × Bool)) :
    HolderCovers stored log (some (decidePush prev stored verdict now scanned)) := by
  have hsaved : ∀ state, savedState verdict false state now = { state with pendingPush := true } := by
    intro state
    simp [savedState, hpush]
  unfold decidePush
  dsimp only
  split
  · exact ⟨rfl, h, hpush⟩
  · rw [hsaved]
    exact ⟨rfl, Or.inl ⟨hpush, h, rfl⟩⟩

theorem pushesCovered_saved {origin : Origin}
    (h : HolderCovers stored log (some (.saving origin state)))
    (hdelivers : delivers cfg ⟨stored, some (.saving origin state)⟩ .saved) :
    state.timeline = stored.timeline ∧ Covered log state := by
  cases origin with
  | scan prev verdict pushed =>
    cases pushed with
    | false =>
      obtain ⟨htimeline, ⟨hpush, howed, hpending⟩ | ⟨-, hstate, -⟩⟩ := h
      · exact ⟨htimeline, (htimeline ▸ howed).wait hpending (hdelivers hpush)⟩
      · exact ⟨htimeline, hstate⟩
    | true => exact ⟨h.1, h.2.1⟩
  | empty => exact ⟨h.1, h.2.1⟩
  | failed => exact ⟨h.1, h.2.1⟩
  | sweep => exact ⟨h.1, h.2.1⟩

theorem covered_cancelled {op : Op} (h : HolderCovers stored log (some op))
    (hscan : op.isScan = true) (hdelivers : delivers cfg ⟨stored, some op⟩ .cancelled) :
    Covered log stored := by
  cases op with
  | scanning prev => exact h.2
  | appending prev verdict scanned => exact h.2.1
  | pushing prev verdict state now => exact h.2.1.wait hdelivers.1 hdelivers.2
  | sweeping state now => cases hscan
  | saving origin state =>
    cases origin with
    | scan prev verdict pushed =>
      cases pushed with
      | false =>
        obtain ⟨-, ⟨hpush, howed, -⟩ | ⟨-, -, hstored⟩⟩ := h
        · obtain ⟨hpending, hkeeps⟩ := hdelivers hpush
          exact howed.wait hpending hkeeps
        · exact hstored
      | true => exact h.2.2
    | empty => exact h.2.2
    | failed => cases hscan
    | sweep => cases hscan

theorem pushesCovered_step {x y : Sys × PushLog} {e : Event} (h : PushesCovered cfg x)
    (hscan : e.isUserAction = false ∧ delivers cfg x.1 e)
    (hstep : ((machine cfg).withHistory (recordPending cfg)).step x e = some y) :
    PushesCovered cfg y := by
  obtain ⟨s, log⟩ := x
  obtain ⟨t, log'⟩ := y
  obtain ⟨hmove, rfl⟩ := (machine cfg).step_withHistory.mp hstep
  obtain ⟨huser, hdelivers⟩ := hscan
  obtain ⟨hdistinct, hcovers⟩ := h
  have hread := compactState_eq_self hdistinct
  cases transition_of_step hmove with
  | markSeen => cases huser
  | revive => cases huser
  | beginScan => exact ⟨hdistinct, hread, hcovers⟩
  | beginSweep hdue => exact ⟨hdistinct, hread, hcovers⟩
  | @beginFailed stored now =>
    have htimeline : (getState cfg.textMatch stored).timeline = stored.timeline :=
      congrArg HookState.timeline hread
    have hpending : (getState cfg.textMatch stored).pendingPush = stored.pendingPush :=
      congrArg HookState.pendingPush hread
    exact ⟨hdistinct, htimeline, Covered.congr hcovers htimeline hpending, hcovers⟩
  | noSignals =>
    obtain ⟨rfl, hcovered⟩ := hcovers
    exact ⟨hdistinct, rfl, hcovered.congr rfl rfl, hcovered⟩
  | assessedNew hnew =>
    obtain ⟨rfl, hcovered⟩ := hcovers
    have hpush := ((visibleVerdict_cases _ _).resolve_right fun hnone => hnew hnone.1).2
    exact ⟨hdistinct, rfl, hcovered, hpush⟩
  | assessedNone hnone =>
    obtain ⟨rfl, hcovered⟩ := hcovers
    have hdrop := ((visibleVerdict_cases _ _).resolve_left fun hnew => hnew.1 hnone).2
    exact ⟨hdistinct, holderCovers_drop hcovered hdrop _ _⟩
  | scanError => exact ⟨hdistinct, hcovers.2⟩
  | @appended stored prev verdict scanned now =>
    obtain ⟨rfl, hcovered, hpush⟩ := hcovers
    refine ⟨distinct_appendTimeline hdistinct hdelivers, ?_⟩
    rw [appendTimeline_eq cfg.parseTs hdistinct]
    show HolderCovers _ (if verdict.decision = .push then _ else _) _
    rw [if_pos hpush]
    exact holderCovers_push (owed_append hcovered verdict) hpush _ _
  | pushed =>
    obtain ⟨htimeline, howed, -⟩ := hcovers
    exact ⟨hdistinct, htimeline, howed.push hdelivers _, howed.push hdelivers _⟩
  | pushFailed =>
    obtain ⟨htimeline, howed, hpush⟩ := hcovers
    refine ⟨hdistinct, ?_⟩
    rw [savedState, if_neg Bool.false_ne_true, if_pos hpush]
    exact ⟨htimeline, Or.inl ⟨hpush, howed, rfl⟩⟩
  | sweepPushed =>
    obtain ⟨rfl, hcovered⟩ := hcovers
    exact ⟨hdistinct, rfl, hcovered.sweep _, hcovered.sweep _⟩
  | sweepFailed => exact ⟨hdistinct, hcovers.2⟩
  | saved =>
    obtain ⟨htimeline, hcovered⟩ := pushesCovered_saved hcovers hdelivers
    refine ⟨?_, hcovered⟩
    rw [htimeline]
    exact hdistinct
  | cancelled hop => exact ⟨hdistinct, covered_cancelled hcovers hop hdelivers⟩

/-- In every run without user actions whose steps all meet `delivers`, when nothing is under way,
an important entry was pushed, or the hook is pending and a sweep will send the entry. -/
theorem pushes_covered {health : List SourceHealth} {as : List Event} {stored : HookState}
    {log : PushLog}
    (hrun : ((machine cfg).withHistory (recordPending cfg)).run
      (⟨initialState health, none⟩, ⟨[], []⟩) as = some (⟨stored, none⟩, log))
    (hmeets : (machine cfg).Meets (fun s e => e.isUserAction = false ∧ delivers cfg s e)
      ⟨initialState health, none⟩ as) :
    ∀ content ∈ log.important, content ∈ log.sent ∨
      stored.pendingPush = true ∧ content ∈ digest (getState cfg.textMatch stored) := by
  have hinit : PushesCovered cfg (⟨initialState health, none⟩, ⟨[], []⟩) :=
    ⟨List.Pairwise.nil, fun _ hmem => absurd hmem List.not_mem_nil⟩
  obtain ⟨hdistinct, hcovered⟩ := Machine.run_invariant_of_meets _
    (fun x e y h hscan hstep => pushesCovered_step h hscan hstep) hinit
    ((machine cfg).meets_withHistory (recordPending cfg) ⟨[], []⟩ hmeets) hrun
  rw [getState, compactState_eq_self hdistinct]
  exact hcovered

def talksBegin : TimelineEntry := alertEntry "1" "talks begin"

def talksFail : TimelineEntry := alertEntry "12" "talks fail"

/-- The second scan has to wait for the sweep. -/
def heldBack : List Event :=
  scanToPush [talksBegin] 0 ++ [.pushed, .saved] ++ scanToPush [talksFail] 1 ++ [.saved]

theorem pushes_covered_heldBack : ∃ stored log,
    ((machine alertHook).withHistory (recordPending alertHook)).run
        (⟨initialState [], none⟩, ⟨[], []⟩) heldBack = some (⟨stored, none⟩, log) ∧
      log = ⟨[talksBegin.content, talksFail.content], [talksBegin.content]⟩ ∧
      ∀ content ∈ log.important, content ∈ log.sent ∨
        stored.pendingPush = true ∧ content ∈ digest (getState alertHook.textMatch stored) := by
  obtain ⟨⟨⟨stored, holder⟩, log⟩, hrun, hend⟩ := Option.map_eq_some_iff.mp
    (show (((machine alertHook).withHistory (recordPending alertHook)).run
        (⟨initialState [], none⟩, ⟨[], []⟩) heldBack).map (fun x => (x.1.holder, x.2)) =
      some (none, ⟨[talksBegin.content, talksFail.content], [talksBegin.content]⟩) by decide)
  obtain rfl : holder = none := congrArg Prod.fst hend
  exact ⟨stored, log, hrun, congrArg Prod.snd hend, pushes_covered hrun (by decide)⟩

/-- The scan is ended behind its append, and noted as failed: its entry is stored, and that is all. -/
theorem push_lost : ∃ stored log,
    ((machine alertHook).withHistory (recordPending alertHook)).run
        (⟨initialState [], none⟩, ⟨[], []⟩)
        (scanToPush [talksBegin] 0 ++ [.cancelled, .beginFailed 0, .saved]) =
      some (⟨stored, none⟩, log) ∧
    ¬∀ content ∈ log.important, content ∈ log.sent ∨
      stored.pendingPush = true ∧ content ∈ digest (getState alertHook.textMatch stored) := by
  obtain ⟨⟨⟨stored, holder⟩, log⟩, hrun, hend⟩ := Option.map_eq_some_iff.mp
    (show (((machine alertHook).withHistory (recordPending alertHook)).run
        (⟨initialState [], none⟩, ⟨[], []⟩)
        (scanToPush [talksBegin] 0 ++ [.cancelled, .beginFailed 0, .saved])).map
      (fun x => (x.1.holder, x.1.stored.pendingPush, x.2)) =
      some (none, false, ⟨[talksBegin.content], []⟩) by decide)
  obtain ⟨rfl, hpending, rfl⟩ :
      holder = none ∧ stored.pendingPush = false ∧ log = ⟨[talksBegin.content], []⟩ := by
    simpa using hend
  refine ⟨stored, _, hrun, fun hcovered => ?_⟩
  rcases hcovered talksBegin.content (List.mem_singleton_self _) with hsent | ⟨hwaits, -⟩
  · exact List.not_mem_nil hsent
  · rw [hpending] at hwaits
    cases hwaits

end NeuralHub.Hooks
