/-
NeuralHub.AgentLoop.ConcurrentAppends — messages that other runs append
while the history is compacted.

Each of them is kept once, or a later stage has put it into its summary
together with older ones. Where it stands afterwards depends on its
`Part`: a stage that replaces old messages puts the system messages in
front, then the summaries, and a message that was appended during an
earlier stage goes with them. The messages of the third part stay behind
everything else, in the order in which they came: `Placed`.

`Awaiting` is the invariant while a stage runs: the list is the snapshot
and what was appended since.
-/
import NeuralHub.AgentLoop.Writeback
import Mathlib.Data.List.Nodup

namespace NeuralHub.AgentLoop.Writeback

open NeuralHub.Lib

variable {cfg : Config} {ms snapshot since before out gone : List Message} {A : List Message}
  {id reserve : Nat}

/-! ## The parts of a list -/

/-- The three parts into which a stage sorts the messages. -/
inductive Part
  | system
  | summary
  | plain
  deriving DecidableEq, Repr

def part (m : Message) : Part :=
  if m.role = .system then .system else if isSummaryMessage m then .summary else .plain

def byPart (p : Part) (ms : List Message) : List Message := ms.filter fun m => part m = p

theorem systemMessages_eq : systemMessages ms = byPart .system ms := by
  refine List.filter_congr fun m _ => ?_
  unfold part
  split
  · simp_all
  · split <;> simp_all

theorem summaryMessages_eq : summaryMessages ms = byPart .summary ms := by
  refine List.filter_congr fun m _ => ?_
  unfold part
  split
  · simp_all
  · split <;> simp_all

theorem nonSystemMessages_eq : nonSystemMessages ms = byPart .plain ms := by
  refine List.filter_congr fun m _ => ?_
  unfold part
  split
  · simp_all
  · split <;> simp_all

theorem part_of_mem_byPart {p : Part} {m : Message} (h : m ∈ byPart p ms) : part m = p := by
  simpa using (List.mem_filter.mp h).2

theorem filter_byPart_of_ne {p p' : Part} (h : p' ≠ p) (q : Message → Bool) :
    (byPart p' ms).filter (fun m => decide (part m = p) && q m) = [] := by
  refine List.filter_eq_nil_iff.mpr fun m hm => ?_
  simp [part_of_mem_byPart hm, h]

theorem filter_byPart_self (p : Part) (q : Message → Bool) :
    (byPart p ms).filter (fun m => decide (part m = p) && q m) =
      ms.filter fun m => decide (part m = p) && q m := by
  rw [byPart, List.filter_filter]
  refine List.filter_congr fun m _ => ?_
  cases decide (part m = p) <;> simp

/-! ## Where the appended messages stand -/

/-- Of the messages `A`, the plain ones stand behind everything that is not
of `A`, and those of one part are in their order. -/
structure Placed (A ms : List Message) : Prop where
  behind : ∃ front tail, ms = front ++ tail ∧ (∀ m ∈ tail, m ∈ A) ∧
    ∀ m ∈ front, m ∈ A → part m ≠ .plain
  order : ∀ p, (ms.filter fun m => decide (part m = p) && decide (m ∈ A)).Sublist A

theorem placed_nil (ms : List Message) : Placed [] ms where
  behind := ⟨ms, [], by simp, by simp, by simp⟩
  order p := by simp

/-- Messages that are new to the list are appended. -/
theorem Placed.append (h : Placed A ms) (hnew : ∀ m ∈ since, m ∉ ms) :
    Placed (A ++ since) (ms ++ since) := by
  have hold : ∀ m ∈ ms, (m ∈ A ++ since ↔ m ∈ A) := by
    intro m hm
    rw [List.mem_append, or_iff_left fun hsince => hnew m hsince hm]
  constructor
  · obtain ⟨front, tail, rfl, htail, hfront⟩ := h.behind
    refine ⟨front, tail ++ since, by rw [List.append_assoc], ?_, ?_⟩
    · intro m hm
      rcases List.mem_append.mp hm with hm | hm
      · exact List.mem_append_left _ (htail m hm)
      · exact List.mem_append_right _ hm
    · intro m hm hA
      exact hfront m hm ((hold m (List.mem_append_left _ hm)).mp hA)
  · intro p
    rw [List.filter_append]
    refine List.Sublist.append ?_ List.filter_sublist
    have hcongr : (ms.filter fun m => decide (part m = p) && decide (m ∈ A ++ since)) =
        ms.filter fun m => decide (part m = p) && decide (m ∈ A) :=
      List.filter_congr fun m hm => by rw [decide_eq_decide.mpr (hold m hm)]
    rw [hcongr]
    exact h.order p

/-- A stage that replaces old messages leaves the appended ones in their places. -/
theorem Placed.replaceOld (h : Placed A ms) (s : Summary) (hnew : buildSummaryMessage id s ∉ A) :
    Placed A (replaceOld id s reserve ms) := by
  have hcut : oldMessages reserve ms ++ recentMessages reserve ms = byPart .plain ms := by
    rw [← nonSystemMessages_eq]
    exact alignRecentBoundary_append (nonSystemMessages ms) reserve
  have hlist : AgentLoop.replaceOld id s reserve ms = byPart .system ms ++ byPart .summary ms ++
      [buildSummaryMessage id s] ++ recentMessages reserve ms := by
    rw [AgentLoop.replaceOld, systemMessages_eq, summaryMessages_eq]
  have hfirst : ∀ m ∈ byPart .system ms ++ byPart .summary ms ++ [buildSummaryMessage id s],
      m ∈ A → part m ≠ .plain := by
    intro m hm hA
    rcases List.mem_append.mp hm with hm | hm
    · rcases List.mem_append.mp hm with hm | hm
      · rw [part_of_mem_byPart hm]
        decide
      · rw [part_of_mem_byPart hm]
        decide
    · rw [List.mem_singleton.mp hm] at hA
      exact absurd hA hnew
  rw [hlist]
  constructor
  · obtain ⟨front, tail, rfl, htail, hfront⟩ := h.behind
    rw [byPart, List.filter_append] at hcut
    rcases List.append_eq_append_iff.mp hcut with ⟨kept, hkept, hrecent⟩ | ⟨kept, -, hkept⟩
    · -- the cut is in front of the appended messages
      refine ⟨_ ++ kept, byPart .plain tail, by rw [hrecent, ← List.append_assoc]; rfl, ?_, ?_⟩
      · intro m hm
        exact htail m (List.mem_of_mem_filter hm)
      · intro m hm hA
        rcases List.mem_append.mp hm with hm | hm
        · exact hfirst m hm hA
        · have hmem : m ∈ front.filter fun m => part m = .plain :=
            hkept ▸ List.mem_append_right _ hm
          exact hfront m (List.mem_of_mem_filter hmem) hA
    · -- the cut is among them
      refine ⟨_, recentMessages reserve (front ++ tail), rfl, ?_, hfirst⟩
      intro m hm
      have hmem : m ∈ tail.filter fun m => part m = .plain := hkept ▸ List.mem_append_right _ hm
      exact htail m (List.mem_of_mem_filter hmem)
  · intro p
    have hrecent : (recentMessages reserve ms).Sublist (byPart .plain ms) :=
      hcut ▸ List.sublist_append_right _ _
    have hnone : ∀ p, Part.plain ≠ p → (recentMessages reserve ms).filter
        (fun m => decide (part m = p) && decide (m ∈ A)) = [] := by
      intro p hp
      have hsub := hrecent.filter fun m => decide (part m = p) && decide (m ∈ A)
      rw [filter_byPart_of_ne hp] at hsub
      exact List.sublist_nil.mp hsub
    refine List.Sublist.trans ?_ (h.order p)
    simp only [List.filter_append, List.filter_cons, List.filter_nil, hnew, decide_false,
      Bool.and_false, Bool.false_eq_true, if_false, List.append_nil]
    cases p with
    | system =>
      rw [filter_byPart_self, filter_byPart_of_ne (by decide), hnone _ (by decide)]
      simp
    | summary =>
      rw [filter_byPart_self, filter_byPart_of_ne (by decide), hnone _ (by decide)]
      simp
    | plain =>
      have hsub := hrecent.filter fun m => decide (part m = .plain) && decide (m ∈ A)
      rw [filter_byPart_self] at hsub
      rw [filter_byPart_of_ne (by decide), filter_byPart_of_ne (by decide)]
      exact hsub

/-! ## The invariant -/

/-- While a stage runs, the list is its snapshot and what was appended since. -/
def Awaiting (done : List Action) (snapshot : List Message) (s : State) : Prop :=
  ∃ before since, appended done = before ++ since ∧ s.messages = snapshot ++ since ∧
    Placed before snapshot

def PointOk (done : List Action) (s : State) : Prop :=
  match s.point with
  | .archiving snapshot => s.messages = snapshot ++ appended done
  | .summarizing snapshot | .compacting snapshot => Awaiting done snapshot s
  | .returned => (∀ a ∈ done, a.fallsBack = false) → Placed (appended done) s.messages

/-- `started` is the list that the compaction was called with, `done` what
has happened since, and `gone` what the stages have summarised. -/
structure Inv (started : List Message) (done : List Action) (gone : List Message) (s : State) :
    Prop where
  nodup : (s.messages.map (·.id)).Nodup
  used : ∀ m ∈ s.messages, m.id ∈ started.map (·.id) ++ newIds done
  kept : ∀ m ∈ appended done, m ∈ s.messages ∨ m ∈ gone
  point : PointOk done s

@[simp] theorem newIds_append (as bs : List Action) : newIds (as ++ bs) = newIds as ++ newIds bs :=
  List.flatMap_append

theorem id_mem_newIds {m : Message} {as : List Action} (h : m ∈ appended as) : m.id ∈ newIds as := by
  obtain ⟨a, ha, hm⟩ := List.mem_filterMap.mp h
  refine List.mem_flatMap.mpr ⟨a, ha, ?_⟩
  cases a <;> simp_all [Action.appended, Action.newIds]

/-- Messages with other ids are other messages. -/
theorem notMem_of_nodup (h : ((snapshot ++ since).map (·.id)).Nodup) :
    ∀ m ∈ since, m.id ∉ snapshot.map (·.id) := by
  intro m hm hmem
  rw [List.map_append, List.nodup_append] at h
  exact h.2.2 _ hmem _ (List.mem_map_of_mem hm) rfl

theorem placed_of_awaiting {done : List Action} {s : State} (h : Awaiting done snapshot s)
    (hnd : (s.messages.map (·.id)).Nodup) : Placed (appended done) s.messages := by
  obtain ⟨before, since, happ, hmessages, hplaced⟩ := h
  rw [hmessages] at hnd
  rw [happ, hmessages]
  exact hplaced.append fun m hm hmem => notMem_of_nodup hnd m hm (List.mem_map_of_mem hmem)

theorem Inv.start (messages : List Message) (h : (messages.map (·.id)).Nodup) :
    Inv messages [] [] (start messages) where
  nodup := h
  used m hm := by simpa [Writeback.start, newIds] using ⟨m, hm, rfl⟩
  kept m hm := by cases hm
  point := (List.append_nil messages).symm

/-! ## The list between two stages -/

structure Settled (started : List Message) (done : List Action) (gone messages : List Message) :
    Prop where
  nodup : (messages.map (·.id)).Nodup
  used : ∀ m ∈ messages, m.id ∈ started.map (·.id) ++ newIds done
  kept : ∀ m ∈ appended done, m ∈ messages ∨ m ∈ gone
  placed : Placed (appended done) messages

variable {started messages : List Message} {done : List Action} {a : Action} {s s' : State}

theorem Settled.awaiting (h : Settled started done gone messages) (p : Point) :
    Awaiting done messages ⟨messages, p⟩ :=
  ⟨appended done, [], by simp, by simp, h.placed⟩

theorem Settled.inv (h : Settled started done gone messages) {p : Point}
    (hp : PointOk done ⟨messages, p⟩) : Inv started done gone ⟨messages, p⟩ :=
  ⟨h.nodup, h.used, h.kept, hp⟩

theorem Inv.settled (h : Inv started done gone s) (hw : Awaiting done snapshot s) :
    Settled started done gone s.messages :=
  ⟨h.nodup, h.used, h.kept, placed_of_awaiting hw h.nodup⟩

/-- An action that appends nothing, and a list that stays as it is. -/
theorem Settled.snoc (h : Settled started done gone messages) (ha : a.appended = none)
    (since : List Message) : Settled started (done ++ [a]) (gone ++ since) messages := by
  have happ : appended (done ++ [a]) = appended done := by simp [appended, ha]
  refine ⟨h.nodup, fun m hm => ?_, fun m hm => ?_, happ ▸ h.placed⟩
  · rw [newIds_append, ← List.append_assoc]
    exact List.mem_append_left _ (h.used m hm)
  · rw [happ] at hm
    exact (h.kept m hm).imp_right (List.mem_append_left _)

theorem writeback_snapshot (hw : Awaiting done snapshot s) (hnd : (s.messages.map (·.id)).Nodup) :
    reattachConcurrentMessages snapshot s.messages snapshot.length = s.messages := by
  obtain ⟨before, since, -, hmessages, -⟩ := hw
  rw [hmessages] at hnd ⊢
  exact reattach_of_fresh (notMem_of_nodup hnd)

theorem writeback_live (hw : Awaiting done snapshot s) :
    reattachConcurrentMessages s.messages s.messages snapshot.length = s.messages := by
  obtain ⟨before, since, -, hmessages, -⟩ := hw
  rw [hmessages]
  exact reattach_live

theorem nodup_replaceOld (hnd : (ms.map (·.id)).Nodup) (hfresh : id ∉ ms.map (·.id)) (sm : Summary) :
    ((replaceOld id sm reserve ms).map (·.id)).Nodup := by
  have hperm := (perm_replaceOld id sm reserve ms).map (·.id)
  rw [List.map_append, List.map_append, List.map_singleton] at hperm
  have hall : (ms.map (·.id) ++ [id]).Nodup := by
    refine List.nodup_append.mpr ⟨hnd, List.nodup_singleton id, ?_⟩
    rintro n hn n' hn' rfl
    rw [List.mem_singleton.mp hn'] at hn
    exact hfresh hn
  exact (hperm.nodup_iff.mpr hall).sublist (List.sublist_append_left _ _)

theorem mem_replaceOld_or (sm : Summary) {m : Message} (hm : m ∈ ms) :
    m ∈ replaceOld id sm reserve ms ∨ m ∈ oldMessages reserve ms := by
  rw [← List.mem_append, (perm_replaceOld id sm reserve ms).mem_iff]
  exact List.mem_append_left _ hm

/-- A stage has replaced old messages of its snapshot. -/
theorem Inv.settled_replaceOld (h : Inv started done gone s) (hw : Awaiting done snapshot s)
    (ha : a.appended = none) (hid : a.newIds = [id]) (sm : Summary)
    (hfresh : id ∉ started.map (·.id) ++ newIds done) :
    Settled started (done ++ [a]) (gone ++ oldMessages reserve snapshot)
      (reattachConcurrentMessages (replaceOld id sm reserve snapshot) s.messages snapshot.length) := by
  have happ : appended (done ++ [a]) = appended done := by simp [appended, ha]
  have hids : newIds (done ++ [a]) = newIds done ++ [id] := by simp [newIds, hid]
  obtain ⟨before, since, hdone, hmessages, hplaced⟩ := hw
  have hnd := h.nodup
  have hused := h.used
  rw [hmessages] at hnd hused
  have hsince := notMem_of_nodup hnd
  rw [List.map_append, List.nodup_append] at hnd
  have hnot : ∀ m ∈ snapshot ++ since, m.id ≠ id := fun m hm heq => hfresh (heq ▸ hused m hm)
  have hsnapshot : id ∉ snapshot.map (·.id) := by
    intro hmem
    obtain ⟨m, hm, heq⟩ := List.mem_map.mp hmem
    exact hnot m (List.mem_append_left _ hm) heq
  have hreplaced : ∀ m ∈ since, m.id ∉ (replaceOld id sm reserve snapshot).map (·.id) := by
    intro m hm hmem
    obtain ⟨m', hm', heq⟩ := List.mem_map.mp hmem
    rcases replaceOld_subset hm' with rfl | hm'
    · exact hnot m (List.mem_append_right _ hm) heq.symm
    · exact hsince m hm (heq ▸ List.mem_map_of_mem hm')
  rw [hmessages, reattach_of_fresh hreplaced]
  constructor
  · rw [List.map_append, List.nodup_append]
    refine ⟨nodup_replaceOld hnd.1 hsnapshot sm, hnd.2.1, ?_⟩
    rintro n hn n' hn' rfl
    obtain ⟨m, hm, rfl⟩ := List.mem_map.mp hn'
    exact hreplaced m hm hn
  · intro m hm
    rw [hids, ← List.append_assoc]
    rcases List.mem_append.mp hm with hm | hm
    · rcases replaceOld_subset hm with rfl | hm
      · exact List.mem_append_right _ (List.mem_singleton_self id)
      · exact List.mem_append_left _ (hused m (List.mem_append_left _ hm))
    · exact List.mem_append_left _ (hused m (List.mem_append_right _ hm))
  · intro m hm
    rw [happ] at hm
    rcases h.kept m hm with hm | hm
    · rw [hmessages] at hm
      rcases List.mem_append.mp hm with hm | hm
      · exact (mem_replaceOld_or sm hm).imp (List.mem_append_left _) (List.mem_append_right _)
      · exact Or.inl (List.mem_append_right _ hm)
    · exact Or.inr (List.mem_append_left _ hm)
  · rw [happ, hdone]
    have hnew : buildSummaryMessage id sm ∉ before := by
      intro hmem
      refine hfresh (List.mem_append_right _ ?_)
      exact id_mem_newIds (hdone ▸ List.mem_append_left _ hmem : buildSummaryMessage id sm ∈ _)
    exact (hplaced.replaceOld sm hnew).append fun m hm hmem =>
      hreplaced m hm (List.mem_map_of_mem hmem)

/-- `_build_fallback_messages` has replaced old messages of the list as it
was by then; what it lacks of the messages behind the snapshot is put back. -/
theorem Inv.fallenBack (h : Inv started done gone s) (hw : Awaiting done snapshot s)
    (ha : a.appended = none) (hid : a.newIds = [id]) (hback : a.fallsBack = true) (sm : Summary)
    (hfresh : id ∉ started.map (·.id) ++ newIds done) :
    Inv started (done ++ [a])
      (gone ++ (oldMessages reserve s.messages).filter (· ∈ snapshot))
      ⟨reattachConcurrentMessages (replaceOld id sm reserve s.messages) s.messages snapshot.length,
        .returned⟩ := by
  have happ : appended (done ++ [a]) = appended done := by simp [appended, ha]
  have hids : newIds (done ++ [a]) = newIds done ++ [id] := by simp [newIds, hid]
  obtain ⟨before, since, -, hmessages, -⟩ := hw
  have hlive : id ∉ s.messages.map (·.id) := by
    intro hmem
    obtain ⟨m, hm, heq⟩ := List.mem_map.mp hmem
    exact hfresh (heq ▸ h.used m hm)
  have hlist : reattachConcurrentMessages (replaceOld id sm reserve s.messages) s.messages
      snapshot.length = replaceOld id sm reserve s.messages ++ since.filter fun m =>
        !((replaceOld id sm reserve s.messages).map (·.id)).contains m.id := by
    conv_lhs => rw [hmessages]
    rw [← hmessages, hmessages, reattach_eq]
  have hsince : ∀ m ∈ since, m ∈ s.messages := fun m hm => hmessages ▸ List.mem_append_right _ hm
  rw [hlist]
  constructor
  · rw [List.map_append, List.nodup_append]
    refine ⟨nodup_replaceOld h.nodup hlive sm, ?_, ?_⟩
    · have hnd := h.nodup
      rw [hmessages, List.map_append, List.nodup_append] at hnd
      exact hnd.2.1.sublist (List.filter_sublist.map _)
    · rintro n hn n' hn' rfl
      obtain ⟨m, hm, rfl⟩ := List.mem_map.mp hn'
      have hout := (List.mem_filter.mp hm).2
      simp [hn] at hout
  · intro m hm
    rw [hids, ← List.append_assoc]
    rcases List.mem_append.mp hm with hm | hm
    · rcases replaceOld_subset hm with rfl | hm
      · exact List.mem_append_right _ (List.mem_singleton_self id)
      · exact List.mem_append_left _ (h.used m hm)
    · exact List.mem_append_left _ (h.used m (hsince m (List.mem_of_mem_filter hm)))
  · intro m hm
    rw [happ] at hm
    rcases h.kept m hm with hm | hm
    · have hor : m ∈ replaceOld id sm reserve s.messages ∨ m ∈ oldMessages reserve s.messages :=
        mem_replaceOld_or sm hm
      rcases hor with hin | hold
      · exact Or.inl (List.mem_append_left _ hin)
      · rw [hmessages] at hm
        rcases List.mem_append.mp hm with hm | hm
        · exact Or.inr (List.mem_append_right _ (List.mem_filter.mpr ⟨hold, by simpa using hm⟩))
        · by_cases hin : m.id ∈ (replaceOld id sm reserve s.messages).map (·.id)
          · -- no other message of the list has this id
            obtain ⟨m', hm', heq⟩ := List.mem_map.mp hin
            rcases replaceOld_subset hm' with rfl | hmem
            · have hid : id = m.id := heq
              exact absurd (hid ▸ List.mem_map_of_mem (hsince m hm)) hlive
            · rw [List.inj_on_of_nodup_map h.nodup hmem (hsince m hm) heq] at hm'
              exact Or.inl (List.mem_append_left _ hm')
          · exact Or.inl (List.mem_append_right _ (List.mem_filter.mpr ⟨hm, by simpa using hin⟩))
    · exact Or.inr (List.mem_append_left _ hm)
  · intro hnone
    have hno := hnone a (List.mem_append_right _ (List.mem_singleton_self a))
    rw [hback] at hno
    cases hno

/-! ## What a stage returns -/

theorem summarized_cases {due shouldCompact : Bool} {run : ArchiveRun}
    (hp : s.point = .summarizing snapshot)
    (hout : (LayeredCompressor.summarizeAndArchive cfg.dump id due run snapshot s.messages).2 = out) :
    out = snapshot ∨ out = s.messages ∨ ∃ sm, out = replaceOld id sm recentKeepCount snapshot ∧
      summarised cfg s (.summarized id due run shouldCompact) =
        oldMessages recentKeepCount snapshot := by
  cases due with
  | false => exact Or.inl hout.symm
  | true =>
    rcases hrun : Level3.summarizeArchive cfg.dump id run snapshot with ⟨file, result⟩
    simp only [LayeredCompressor.summarizeAndArchive, hrun, if_true] at hout
    cases result with
    | error message => exact Or.inr (Or.inl hout.symm)
    | ok summarized =>
      dsimp only at hout
      subst hout
      rcases summarizeArchive_cases hrun with ⟨-, rfl⟩ | ⟨-, ⟨sm, rfl⟩, path, rfl⟩
      · exact Or.inl rfl
      · exact Or.inr (Or.inr ⟨sm, rfl, by simp [summarised, hp, hrun]⟩)

theorem compacted_cases {outcome : SummaryOutcome} (hp : s.point = .compacting snapshot)
    (hout : ContextCompressor.compact id cfg.reserveRecentCount outcome snapshot s.messages = .ok out) :
    out = snapshot ∨
    (∃ sm, out = replaceOld id sm cfg.reserveRecentCount snapshot ∧
      summarised cfg s (.compacted id outcome) = oldMessages cfg.reserveRecentCount snapshot) ∨
    ((Action.compacted id outcome).fallsBack = true ∧
      ∃ sm, out = replaceOld id sm cfg.reserveRecentCount s.messages ∧
        summarised cfg s (.compacted id outcome) =
          (oldMessages cfg.reserveRecentCount s.messages).filter (· ∈ snapshot)) := by
  unfold ContextCompressor.compact at hout
  split at hout
  · exact Or.inl (Except.ok.inj hout).symm
  · rename_i hlength
    dsimp only at hout
    split at hout
    · exact Or.inl (Except.ok.inj hout).symm
    · cases outcome with
      | content text =>
        exact Or.inr (Or.inl ⟨_, (Except.ok.inj hout).symm, by simp [summarised, hp, hlength]⟩)
      | failed message =>
        exact Or.inr (Or.inl ⟨_, (Except.ok.inj hout).symm, by simp [summarised, hp, hlength]⟩)
      | unexpected message =>
        exact Or.inr (Or.inr ⟨rfl, _, (Except.ok.inj hout).symm, by simp [summarised, hp, hlength]⟩)
      | escaped message => cases hout

/-! ## A step keeps the invariant -/

theorem Inv.awaiting (h : Inv started done gone s)
    (hp : s.point = .archiving snapshot ∨ s.point = .summarizing snapshot ∨
      s.point = .compacting snapshot) : Awaiting done snapshot s := by
  have hpoint := h.point
  rcases hp with hp | hp | hp <;> simp only [PointOk, hp] at hpoint
  · exact ⟨[], appended done, rfl, hpoint, placed_nil snapshot⟩
  · exact hpoint
  · exact hpoint

theorem Inv.append {m : Message} (h : Inv started done gone s) (hp : s.point ≠ .returned)
    (hfresh : m.id ∉ started.map (·.id) ++ newIds done) :
    Inv started (done ++ [.append m]) gone { s with messages := s.messages ++ [m] } := by
  have happ : appended (done ++ [.append m]) = appended done ++ [m] := by
    simp [appended, Action.appended]
  have hids : newIds (done ++ [.append m]) = newIds done ++ [m.id] := by
    simp [newIds, Action.newIds]
  have hawaiting : ∀ snapshot, Awaiting done snapshot s →
      Awaiting (done ++ [.append m]) snapshot { s with messages := s.messages ++ [m] } := by
    rintro snapshot ⟨before, since, hdone, hmessages, hplaced⟩
    exact ⟨before, since ++ [m], by rw [happ, hdone, List.append_assoc],
      by rw [hmessages, List.append_assoc], hplaced⟩
  constructor
  · rw [List.map_append, List.nodup_append]
    refine ⟨h.nodup, List.nodup_singleton _, ?_⟩
    rintro n hn n' hn' rfl
    obtain ⟨x, hx, rfl⟩ := List.mem_map.mp hn
    rw [List.map_singleton, List.mem_singleton] at hn'
    exact hfresh (hn' ▸ h.used x hx)
  · intro x hx
    rw [hids, ← List.append_assoc]
    rcases List.mem_append.mp hx with hx | hx
    · exact List.mem_append_left _ (h.used x hx)
    · rw [List.mem_singleton.mp hx]
      exact List.mem_append_right _ (List.mem_singleton_self _)
  · intro x hx
    rw [happ] at hx
    rcases List.mem_append.mp hx with hx | hx
    · exact (h.kept x hx).imp_left (List.mem_append_left _)
    · exact Or.inl (List.mem_append_right _ hx)
  · have hpoint := h.point
    cases hs : s.point with
    | archiving snapshot =>
      simp only [PointOk, hs] at hpoint ⊢
      rw [happ, hpoint, List.append_assoc]
    | summarizing snapshot =>
      simp only [PointOk, hs] at hpoint ⊢
      exact hawaiting snapshot hpoint
    | compacting snapshot =>
      simp only [PointOk, hs] at hpoint ⊢
      exact hawaiting snapshot hpoint
    | returned => exact absurd hs hp

/-- The first stage has rewritten its snapshot message by message. -/
theorem Inv.archived {compacted : List Message} (h : Inv started done gone s)
    (hp : s.point = .archiving snapshot) (hshape : compacted.map (·.id) = snapshot.map (·.id))
    (ha : a.appended = none) :
    Settled started (done ++ [a]) (gone ++ [])
      (reattachConcurrentMessages compacted s.messages snapshot.length) := by
  have hmessages : s.messages = snapshot ++ appended done := by
    have hpoint := h.point
    simp only [PointOk, hp] at hpoint
    exact hpoint
  have hnd := h.nodup
  rw [hmessages] at hnd
  have hfresh : ∀ m ∈ appended done, m.id ∉ compacted.map (·.id) := by
    rw [hshape]
    exact notMem_of_nodup hnd
  have hmap : (compacted ++ appended done).map (·.id) = s.messages.map (·.id) := by
    rw [hmessages, List.map_append, List.map_append, hshape]
  rw [hmessages, reattach_of_fresh hfresh]
  refine Settled.snoc ⟨hmap ▸ h.nodup, ?_, fun m hm => Or.inl (List.mem_append_right _ hm), ?_⟩ ha []
  · intro m hm
    have hmem : m.id ∈ s.messages.map (·.id) := hmap ▸ List.mem_map_of_mem hm
    obtain ⟨m', hm', heq⟩ := List.mem_map.mp hmem
    exact heq ▸ h.used m' hm'
  · have hplaced := (placed_nil compacted).append fun m hm hmem =>
      hfresh m hm (List.mem_map_of_mem hmem)
    simpa using hplaced

theorem inv_step (h : Inv started done gone s) (hstep : (machine cfg).step s a = some s')
    (hfresh : ∀ n ∈ a.newIds, n ∉ started.map (·.id) ++ newIds done) :
    Inv started (done ++ [a]) (gone ++ summarised cfg s a) s' := by
  change step cfg s a = some s' at hstep
  unfold step at hstep
  split at hstep
  · cases hstep
  · -- a message is appended
    rename_i m hp
    obtain rfl := Option.some.inj hstep
    have hkept := h.append (fun heq => hp heq) (hfresh m.id (List.mem_singleton_self _))
    simpa [summarised] using hkept
  · -- the first stage returns
    rename_i readable paths snapshot hp
    obtain rfl := Option.some.inj hstep
    have hids := map_id_of_sameShape (sameShape_checkAndCompact cfg.archive readable paths snapshot)
    have hsettled := h.archived (a := .archived readable paths) hp hids rfl
    have hgone : summarised cfg s (.archived readable paths) = [] := by simp [summarised]
    rw [hgone]
    exact hsettled.inv (hsettled.awaiting _)
  · -- it has failed
    rename_i snapshot hp
    obtain rfl := Option.some.inj hstep
    have hawaiting := h.awaiting (Or.inl hp)
    have hsettled := (h.settled hawaiting).snoc (a := .archiveFailed) rfl []
    have hgone : summarised cfg s .archiveFailed = [] := by simp [summarised]
    rw [hgone, writeback_live hawaiting]
    exact hsettled.inv (hsettled.awaiting _)
  · -- the second stage returns
    rename_i id due run shouldCompact snapshot hp
    obtain rfl := Option.some.inj hstep
    have hawaiting := h.awaiting (Or.inr (Or.inl hp))
    have hid : id ∉ started.map (·.id) ++ newIds done := hfresh id (List.mem_singleton_self _)
    generalize hout : (LayeredCompressor.summarizeAndArchive cfg.dump id due run snapshot
      s.messages).2 = out
    have hsettled : Settled started (done ++ [.summarized id due run shouldCompact])
        (gone ++ summarised cfg s (.summarized id due run shouldCompact))
        (reattachConcurrentMessages out s.messages snapshot.length) := by
      rcases summarized_cases hp hout with rfl | rfl | ⟨sm, rfl, hgone⟩
      · rw [writeback_snapshot hawaiting h.nodup]
        exact (h.settled hawaiting).snoc rfl _
      · rw [writeback_live hawaiting]
        exact (h.settled hawaiting).snoc rfl _
      · rw [hgone]
        exact h.settled_replaceOld hawaiting rfl rfl sm hid
    refine hsettled.inv ?_
    cases shouldCompact with
    | true => exact hsettled.awaiting _
    | false => exact fun _ => hsettled.placed
  · -- the last stage returns
    rename_i id outcome snapshot hp
    have hawaiting := h.awaiting (Or.inr (Or.inr hp))
    have hid : id ∉ started.map (·.id) ++ newIds done := hfresh id (List.mem_singleton_self _)
    split at hstep
    · rename_i compacted hout
      obtain rfl := Option.some.inj hstep
      rcases compacted_cases hp hout with rfl | ⟨sm, rfl, hgone⟩ | ⟨hback, sm, rfl, hgone⟩
      · rw [writeback_snapshot hawaiting h.nodup]
        have hsettled := (h.settled hawaiting).snoc (a := .compacted id outcome) rfl
          (summarised cfg s (.compacted id outcome))
        exact hsettled.inv fun _ => hsettled.placed
      · rw [hgone]
        have hsettled : Settled started (done ++ [.compacted id outcome])
            (gone ++ oldMessages cfg.reserveRecentCount snapshot)
            (reattachConcurrentMessages (replaceOld id sm cfg.reserveRecentCount snapshot) s.messages
              snapshot.length) := h.settled_replaceOld hawaiting rfl rfl sm hid
        exact hsettled.inv fun _ => hsettled.placed
      · rw [hgone]
        exact h.fallenBack hawaiting rfl rfl hback sm hid
    · obtain rfl := Option.some.inj hstep
      have hsettled := (h.settled hawaiting).snoc (a := .compacted id outcome) rfl
        (summarised cfg s (.compacted id outcome))
      exact hsettled.inv fun _ => hsettled.placed
  · -- an exception ends the compaction
    rename_i hp
    obtain rfl := Option.some.inj hstep
    have hawaiting : ∃ snapshot, Awaiting done snapshot s := by
      cases hs : s.point with
      | archiving snapshot => exact ⟨snapshot, h.awaiting (Or.inl hs)⟩
      | summarizing snapshot => exact ⟨snapshot, h.awaiting (Or.inr (Or.inl hs))⟩
      | compacting snapshot => exact ⟨snapshot, h.awaiting (Or.inr (Or.inr hs))⟩
      | returned => exact absurd hs (fun heq => hp heq)
    obtain ⟨snapshot, hawaiting⟩ := hawaiting
    have hsettled := (h.settled hawaiting).snoc (a := .raised) rfl (summarised cfg s .raised)
    exact hsettled.inv fun _ => hsettled.placed
  · cases hstep

theorem inv_run {as : List Action} {t : State} {gone' : List Message}
    (h : Inv started done gone s)
    (hids : (started.map (·.id) ++ newIds (done ++ as)).Nodup)
    (hrun : (withSummarised cfg).run (s, gone) as = some (t, gone')) :
    Inv started (done ++ as) gone' t := by
  induction as generalizing done gone s with
  | nil =>
    obtain ⟨rfl, rfl⟩ := Prod.mk.inj (Option.some.inj hrun)
    rwa [List.append_nil]
  | cons a as ih =>
    obtain ⟨⟨u, gone₁⟩, hstep, hrest⟩ := (Machine.run_cons_eq_some _).mp hrun
    obtain ⟨htaken, rfl⟩ := (Machine.step_withHistory _).mp hstep
    have hlist : done ++ a :: as = (done ++ [a]) ++ as := by simp
    have hfresh : ∀ n ∈ a.newIds, n ∉ started.map (·.id) ++ newIds done := by
      intro n hn hmem
      have hnew : newIds (done ++ a :: as) = newIds done ++ (a.newIds ++ newIds as) := by
        simp [newIds]
      rw [hnew, ← List.append_assoc, List.nodup_append] at hids
      exact hids.2.2 n hmem n (List.mem_append_left _ hn) rfl
    rw [hlist] at hids ⊢
    exact ih (inv_step h htaken hfresh) hids hrest

/-! ## Appended messages are kept -/

/-- **Messages that are appended while the history is compacted are kept.**
Each is in the list once, or a stage that began later has put it into its
summary. Unless the last stage ends in its fallback, the plain ones stand
behind all messages that were there before, and those of each part are in
the order in which they were appended. -/
theorem appended_messages_kept {as : List Action} {t : State}
    (hids : (messages.map (·.id) ++ newIds as).Nodup)
    (hrun : (withSummarised cfg).run (start messages, []) as = some (t, gone)) :
    (∀ m ∈ appended as, t.messages.count m = 1 ∨ (m ∉ t.messages ∧ m ∈ gone)) ∧
    ((∀ a ∈ as, a.fallsBack = false) →
      (∀ m ∈ appended as, part m = .plain → ∀ pre post, t.messages = pre ++ m :: post →
        ∀ x ∈ post, x ∈ appended as) ∧
      ∀ p, (t.messages.filter fun m => decide (part m = p) && decide (m ∈ appended as)).Sublist
        (appended as)) := by
  have hstart := Inv.start messages (List.nodup_append.mp hids).1
  have hinv : Inv messages as gone t := inv_run hstart hids hrun
  have hnd : t.messages.Nodup := hinv.nodup.of_map _
  constructor
  · intro m hm
    by_cases hmem : m ∈ t.messages
    · exact Or.inl (List.count_eq_one_of_mem hnd hmem)
    · exact Or.inr ⟨hmem, (hinv.kept m hm).resolve_left hmem⟩
  · intro hnone
    have hplaced : Placed (appended as) t.messages := by
      have hpoint := hinv.point
      cases hp : t.point with
      | archiving snapshot => exact placed_of_awaiting (hinv.awaiting (Or.inl hp)) hinv.nodup
      | summarizing snapshot =>
        exact placed_of_awaiting (hinv.awaiting (Or.inr (Or.inl hp))) hinv.nodup
      | compacting snapshot =>
        exact placed_of_awaiting (hinv.awaiting (Or.inr (Or.inr hp))) hinv.nodup
      | returned =>
        simp only [PointOk, hp] at hpoint
        exact hpoint hnone
    refine ⟨fun m hm hplain pre post heq x hx => ?_, hplaced.order⟩
    obtain ⟨front, tail, hsplit, htail, hfront⟩ := hplaced.behind
    refine htail x ?_
    -- the message is not in front, so what follows it is in the tail
    have hnot : m ∉ front := fun hmem => hfront m hmem hm hplain
    rw [heq] at hsplit
    rcases List.append_eq_append_iff.mp hsplit with ⟨rest, hrest, hpost⟩ | ⟨rest, -, hrest⟩
    · cases rest with
      | nil =>
        rw [List.nil_append] at hpost
        exact hpost ▸ List.mem_cons_of_mem m hx
      | cons y rest =>
        rw [List.cons_append] at hpost
        obtain ⟨rfl, -⟩ := List.cons.inj hpost
        exact absurd (hrest ▸ List.mem_append_right _ List.mem_cons_self) hnot
    · exact hrest ▸ List.mem_append_right _ (List.mem_cons_of_mem m hx)

/-! ## A message that goes in front -/

section Example

/-- No result is large, and no path leads to the history. -/
def plainArchive : Archive where
  tokenCount _ := 0
  hasHistoryPath _ := false
  isHistoryRead _ := false
  extractBrief _ := ""

def sixKept : Config := ⟨plainArchive, 6, fun _ => []⟩

def sevenMessages : List Message := (List.range 7).map fun id => .user id "q"

/-- While the second stage waits for its summary, another run appends a
message that begins like a summary, and a plain one. -/
def summaryAppended : List Action :=
  [.archived true [], .append (.user 10 "[压缩摘要] notes"), .append (.user 11 "q"),
    .summarized 7 true ⟨.ok "1.jsonl", .content "short"⟩ true, .compacted 8 (.content "short")]

theorem appended_messages_kept_seven :
    ∃ t gone, (withSummarised sixKept).run (start sevenMessages, []) summaryAppended = some (t, gone) ∧
      (∀ m ∈ appended summaryAppended, t.messages.count m = 1 ∨ (m ∉ t.messages ∧ m ∈ gone)) ∧
      ∀ m ∈ appended summaryAppended, part m = .plain → ∀ pre post,
        t.messages = pre ++ m :: post → ∀ x ∈ post, x ∈ appended summaryAppended := by
  have hids : ((withSummarised sixKept).run (start sevenMessages, []) summaryAppended).map
      (fun u => u.1.messages.map (·.id)) = some [7, 10, 8, 2, 3, 4, 5, 6, 11] := by decide
  obtain ⟨⟨t, gone⟩, hrun, -⟩ := Option.map_eq_some_iff.mp hids
  have hkept := appended_messages_kept (by decide) hrun
  exact ⟨t, gone, hrun, hkept.1, (hkept.2 (by decide)).1⟩

/-- The last stage puts the appended message in front of older ones. -/
theorem appended_summary_goes_in_front :
    ∃ t gone, (withSummarised sixKept).run (start sevenMessages, []) summaryAppended = some (t, gone) ∧
      (sevenMessages.map (·.id) ++ newIds summaryAppended).Nodup ∧
      ∃ m ∈ appended summaryAppended, ∃ x ∈ sevenMessages, ∃ i j : Nat, i < j ∧
        t.messages[i]? = some m ∧ t.messages[j]? = some x := by
  have hplaces : ((withSummarised sixKept).run (start sevenMessages, []) summaryAppended).map
      (fun u => (u.1.messages[1]?, u.1.messages[3]?)) =
        some (some (.user 10 "[压缩摘要] notes"), some (.user 2 "q")) := by decide
  obtain ⟨⟨t, gone⟩, hrun, hplace⟩ := Option.map_eq_some_iff.mp hplaces
  obtain ⟨hm, hx⟩ := Prod.mk.inj hplace
  exact ⟨t, gone, hrun, by decide, _, by decide, _, by decide, 1, 3, by decide, hm, hx⟩

end Example

end NeuralHub.AgentLoop.Writeback
