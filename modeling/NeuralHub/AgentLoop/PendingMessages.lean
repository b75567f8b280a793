/-
NeuralHub.AgentLoop.PendingMessages — what becomes of the texts queued
while a run is on?

`note` keeps a ledger beside the loop: the texts queued so far, the
messages made of them, and the messages that a summary replaced. Between
the runs the texts delivered and the texts still waiting are the texts
queued, in this order, and each delivered text is one message that is
either in the history, exactly once, or has been summarised
(`queued_texts_accounted`). Texts that do not read as summaries keep
their order in the history as well: a text that does is moved to the
front with the summaries.

The queue is emptied in one go and the texts are appended one at a time,
each with an `await`. The runs considered here are not interrupted while
a drained text still waits for its turn (`drainUndisturbed`).
-/
import NeuralHub.AgentLoop.RunTheorems

namespace NeuralHub.AgentLoop

open NeuralHub.Lib

structure Ledger where
  /-- the texts queued, stripped and not blank -/
  queued : List String := []
  /-- the messages made of them -/
  delivered : List Message := []
  /-- the messages that summaries replaced -/
  summarised : List Message := []
  deriving DecidableEq

/-- Those of `xs` whose id does not occur in `ys`. -/
def goneFrom (xs ys : List Message) : List Message := xs.filter fun m => m.id ∉ ys.map (·.id)

def note (s : State) (a : Action) (t : State) (l : Ledger) : Ledger where
  queued := a.enqueue l.queued
  delivered :=
    if a.isLoop && t.point.delivers then l.delivered ++ t.history.getLast?.toList else l.delivered
  summarised :=
    if summarises s.point a then l.summarised ++ goneFrom s.history t.history else l.summarised

/-- No interruption while drained texts wait to be appended. -/
def drainUndisturbed (s : State) (a : Action) : Bool :=
  match a with
  | .resume .raised | .resume .cancelled => s.point.inflight.isEmpty
  | _ => true

/-- Where the delivered messages are. -/
structure Kept (history : List Message) (nextId : Nat) (delivered summarised : List Message) :
    Prop where
  user : ∀ m ∈ delivered, m.role = .user
  distinct : (delivered.map (·.id)).Nodup
  once : (history.map (·.id)).Nodup
  bound : ∀ m, m ∈ history ∨ m ∈ delivered ∨ m ∈ summarised → m.id < nextId
  present : ∀ m ∈ delivered, m ∈ history ∨ m ∈ summarised
  gone : ∀ m ∈ summarised, m.id ∉ history.map (·.id)
  order : (history.filter fun m => decide (m ∈ delivered) && !isSummaryMessage m).Sublist delivered

namespace Kept

variable {history delivered summarised : List Message} {n n' : Nat}

/-- A message with a new id is not one that was delivered. -/
theorem fresh_notMem (h : Kept history n delivered summarised) {m : Message} (hm : n ≤ m.id) :
    m ∉ delivered := fun hmem => by
  have := h.bound m (Or.inr (Or.inl hmem))
  omega

theorem append (h : Kept history n delivered summarised) {added : List Message}
    (hnew : NewIds n added n') : Kept (history ++ added) n' delivered summarised where
  user := h.user
  distinct := h.distinct
  once := by
    rw [List.map_append, List.nodup_append]
    refine ⟨h.once, hnew.nodup, ?_⟩
    intro x hx y hy
    obtain ⟨m, hm, rfl⟩ := List.mem_map.mp hx
    obtain ⟨m', hm', rfl⟩ := List.mem_map.mp hy
    have hlt := h.bound m (Or.inl hm)
    have hle := (hnew.mem m' hm').1
    omega
  bound m hm := by
    have hle := hnew.le
    rcases hm with hm | hm
    · rcases List.mem_append.mp hm with hm | hm
      · have := h.bound m (Or.inl hm)
        omega
      · exact (hnew.mem m hm).2
    · have := h.bound m (Or.inr hm)
      omega
  present m hm := (h.present m hm).imp_left (List.mem_append_left added)
  gone m hm := by
    rw [List.map_append, List.mem_append, not_or]
    refine ⟨h.gone m hm, fun hmem => ?_⟩
    obtain ⟨m', hm', hid⟩ := List.mem_map.mp hmem
    have hlt := h.bound m (Or.inr (Or.inr hm))
    have hle := (hnew.mem m' hm').1
    omega
  order := by
    have hnone : added.filter (fun m => decide (m ∈ delivered) && !isSummaryMessage m) = [] := by
      rw [List.filter_eq_nil_iff]
      intro m hm
      simp [h.fresh_notMem (hnew.mem m hm).1]
    rw [List.filter_append, hnone, List.append_nil]
    exact h.order

theorem deliver (h : Kept history n delivered summarised) (text : String) :
    Kept (history ++ [.user n text]) (n + 1) (delivered ++ [.user n text]) summarised := by
  have happ := h.append (NewIds.one rfl : NewIds n [.user n text] (n + 1))
  refine ⟨?_, ?_, happ.once, ?_, ?_, happ.gone, ?_⟩
  · intro m hm
    rcases List.mem_append.mp hm with hm | hm
    · exact h.user m hm
    · rw [List.mem_singleton.mp hm]
      rfl
  · rw [List.map_append, List.nodup_append]
    refine ⟨h.distinct, by simp, ?_⟩
    intro x hx y hy
    obtain ⟨m, hm, rfl⟩ := List.mem_map.mp hx
    rw [List.map_singleton, List.mem_singleton] at hy
    have hlt := h.bound m (Or.inr (Or.inl hm))
    have hyn : y = n := hy
    omega
  · rintro m (hm | hm | hm)
    · exact happ.bound m (Or.inl hm)
    · rcases List.mem_append.mp hm with hm | hm
      · exact happ.bound m (Or.inr (Or.inl hm))
      · exact happ.bound m (Or.inl (List.mem_append_right _ hm))
    · exact happ.bound m (Or.inr (Or.inr hm))
  · intro m hm
    rcases List.mem_append.mp hm with hm | hm
    · exact happ.present m hm
    · exact Or.inl (List.mem_append_right _ hm)
  · have hold : history.filter (fun m => decide (m ∈ delivered ++ [.user n text]) &&
        !isSummaryMessage m) = history.filter (fun m => decide (m ∈ delivered) &&
        !isSummaryMessage m) := by
      refine List.filter_congr fun m hm => ?_
      have hne : m ≠ .user n text := by
        rintro rfl
        exact Nat.lt_irrefl n (h.bound _ (Or.inl hm))
      simp [hne]
    rw [List.filter_append, hold]
    exact h.order.append (List.filter_sublist)

theorem archive (h : Kept history n delivered summarised) {history' : List Message}
    (hshape : List.Forall₂ SameShape history history') (hn : n ≤ n') :
    Kept history' n' delivered summarised := by
  have hids : history'.map (·.id) = history.map (·.id) := map_id_of_sameShape hshape
  have hfilter : ∀ p : Message → Bool, (∀ m, p m = true → m.isTool = false) →
      history'.filter p = history.filter p := by
    intro p hp
    clear h hids
    induction hshape with
    | nil => rfl
    | @cons m m' _ _ hm _ ih =>
      cases htool : m.isTool with
      | false => rw [hm.other htool, List.filter_cons, List.filter_cons, ih]
      | true =>
        have hno : p m = false := by
          by_contra hpm
          rw [hp m (by simpa using hpm)] at htool
          cases htool
        have hno' : p m' = false := by
          by_contra hpm
          rw [← hm.isTool, hp m' (by simpa using hpm)] at htool
          cases htool
        rw [List.filter_cons_of_neg (by simp [hno']), List.filter_cons_of_neg (by simp [hno]), ih]
  have hnotool : ∀ m ∈ delivered, m.isTool = false := fun m hm =>
    (not_calling_of_role (Or.inl (h.user m hm))).2
  refine ⟨h.user, h.distinct, hids ▸ h.once, ?_, ?_, fun m hm => hids ▸ h.gone m hm, ?_⟩
  · rintro m (hm | hm)
    · obtain ⟨m₀, hm₀, hid⟩ : ∃ m₀ ∈ history, m₀.id = m.id :=
        List.mem_map.mp (hids ▸ List.mem_map_of_mem hm)
      have := h.bound m₀ (Or.inl hm₀)
      omega
    · have := h.bound m (Or.inr hm)
      omega
  · intro m hm
    refine (h.present m hm).imp_left fun hold => ?_
    have hmem : m ∈ history.filter (fun x => !x.isTool) :=
      List.mem_filter.mpr ⟨hold, by simp [hnotool m hm]⟩
    rw [← hfilter _ (by simp)] at hmem
    exact List.mem_of_mem_filter hmem
  · rw [hfilter _ fun m hm => ?_]
    · exact h.order
    · simp only [Bool.and_eq_true, decide_eq_true_eq] at hm
      exact hnotool m hm.1

theorem mem_goneFrom {xs ys : List Message} {m : Message} :
    m ∈ goneFrom xs ys ↔ m ∈ xs ∧ m.id ∉ ys.map (·.id) := by
  simp only [goneFrom, List.mem_filter, decide_eq_true_eq]

theorem replaceOld (h : Kept history n delivered summarised) (s : Summary) (reserve : Nat) :
    Kept (replaceOld n s reserve history) (n + 1) delivered
      (summarised ++ goneFrom history (AgentLoop.replaceOld n s reserve history)) := by
  have hnew := h.append (NewIds.one rfl : NewIds n [buildSummaryMessage n s] (n + 1))
  have hperm := perm_replaceOld n s reserve history
  have hids : ((AgentLoop.replaceOld n s reserve history).map (·.id)).Nodup := by
    have hall := (hperm.map (·.id)).nodup_iff.mpr hnew.once
    rw [List.map_append, List.nodup_append] at hall
    exact hall.1
  have hsub : ∀ m ∈ AgentLoop.replaceOld n s reserve history,
      m = buildSummaryMessage n s ∨ m ∈ history := fun m hm => replaceOld_subset hm
  refine ⟨h.user, h.distinct, hids, ?_, ?_, ?_, ?_⟩
  · rintro m (hm | hm | hm)
    · rcases hsub m hm with rfl | hm
      · exact Nat.lt_succ_self n
      · exact Nat.lt_succ_of_lt (h.bound m (Or.inl hm))
    · exact Nat.lt_succ_of_lt (h.bound m (Or.inr (Or.inl hm)))
    · rcases List.mem_append.mp hm with hm | hm
      · exact Nat.lt_succ_of_lt (h.bound m (Or.inr (Or.inr hm)))
      · exact Nat.lt_succ_of_lt (h.bound m (Or.inl (mem_goneFrom.mp hm).1))
  · -- what is not gone is there under its id, and ids are unique
    intro m hm
    rcases h.present m hm with hold | hold
    · by_cases hid : m.id ∈ (AgentLoop.replaceOld n s reserve history).map (·.id)
      · obtain ⟨m', hm', heq⟩ := List.mem_map.mp hid
        rcases hsub m' hm' with rfl | hm''
        · have hlt := h.bound m (Or.inl hold)
          have hn : n = m.id := heq
          omega
        · have hsame : m' = m := List.inj_on_of_nodup_map h.once hm'' hold heq
          exact Or.inl (hsame ▸ hm')
      · exact Or.inr (List.mem_append_right _ (mem_goneFrom.mpr ⟨hold, hid⟩))
    · exact Or.inr (List.mem_append_left _ hold)
  · intro m hm
    rcases List.mem_append.mp hm with hm | hm
    · intro hid
      obtain ⟨m', hm', heq⟩ := List.mem_map.mp hid
      rcases hsub m' hm' with rfl | hm''
      · have hlt := h.bound m (Or.inr (Or.inr hm))
        have hn : n = m.id := heq
        omega
      · exact h.gone m hm (heq ▸ List.mem_map_of_mem hm'')
    · exact (mem_goneFrom.mp hm).2
  · have hsystem : (systemMessages history).filter
        (fun m => decide (m ∈ delivered) && !isSummaryMessage m) = [] := by
      rw [List.filter_eq_nil_iff]
      intro m hm
      have hrole : m.role = .system := by simpa [systemMessages] using (List.mem_filter.mp hm).2
      have hno : m ∉ delivered := fun hmem => by
        rw [h.user m hmem] at hrole
        cases hrole
      simp [hno]
    have hsummary : (summaryMessages history).filter
        (fun m => decide (m ∈ delivered) && !isSummaryMessage m) = [] := by
      rw [List.filter_eq_nil_iff]
      intro m hm
      have hsum : isSummaryMessage m = true := by
        have := (List.mem_filter.mp hm).2
        simp only [Bool.and_eq_true] at this
        exact this.2
      simp [hsum]
    have hbuilt : [buildSummaryMessage n s].filter
        (fun m => decide (m ∈ delivered) && !isSummaryMessage m) = [] := by
      rw [List.filter_eq_nil_iff]
      intro m hm
      simp [h.fresh_notMem (Nat.le_of_eq (List.mem_singleton.mp hm ▸ rfl : n = m.id))]
    have hrecent : (recentMessages reserve history).Sublist history :=
      (recentMessages_sublist reserve history).trans List.filter_sublist
    rw [AgentLoop.replaceOld, List.filter_append, List.filter_append, List.filter_append, hsystem,
      hsummary, hbuilt, List.nil_append, List.nil_append, List.nil_append]
    exact (hrecent.filter _).trans h.order

end Kept

/-! ## Steps -/

/-- What holds at every `await` of an undisturbed run. -/
structure Accounted (s : State) (l : Ledger) : Prop where
  snapshot : SnapshotOk s
  texts : l.delivered.map (·.content) ++ (s.point.inflight ++ s.pending) = l.queued
  kept : Kept s.history s.nextId l.delivered l.summarised

theorem goneFrom_append_self (xs ys : List Message) : goneFrom xs (xs ++ ys) = [] := by
  rw [goneFrom, List.filter_eq_nil_iff]
  intro m hm
  simp only [decide_eq_true_eq, not_not, List.map_append, List.mem_append]
  exact Or.inl (List.mem_map_of_mem hm)

theorem goneFrom_append {xs ys zs : List Message} (h : ∀ z ∈ zs, ∀ x ∈ xs, z.id ≠ x.id) :
    goneFrom xs (ys ++ zs) = goneFrom xs ys := by
  refine List.filter_congr fun m hm => ?_
  have hno : m.id ∉ zs.map (·.id) := fun hid => by
    obtain ⟨z, hz, heq⟩ := List.mem_map.mp hid
    exact h z hz m hm heq
  simp only [List.map_append, List.mem_append, hno, or_false]

theorem Keeps.inflight {a : Action} {s : State} (h : Keeps a s)
    (hu : drainUndisturbed s a = true) : s.point.inflight = [] := by
  rcases h with h | rfl | rfl
  · exact h
  · exact List.isEmpty_iff.mp hu
  · exact List.isEmpty_iff.mp hu

theorem push_append (xs ys : List String) (text : String) :
    push (xs ++ ys) text = xs ++ push ys text := by
  unfold push
  dsimp only
  split
  · rfl
  · rw [List.append_assoc]

theorem Action.enqueue_append (a : Action) (xs ys : List String) :
    a.enqueue (xs ++ ys) = xs ++ a.enqueue ys := by
  cases a <;> first | rfl | exact push_append xs ys _

theorem Action.enqueue_of_isLoop {a : Action} (h : a.isLoop = true) (pending : List String) :
    a.enqueue pending = pending := by
  cases a <;> first | rfl | cases h

/-- A step that keeps the messages of the history takes none out of it. -/
theorem note_summarised {a : Action} {s t : State} {l : Ledger}
    (h : goneFrom s.history t.history = []) : (note s a t l).summarised = l.summarised := by
  simp [note, h]

theorem note_delivered_of_quiet {a : Action} {s t : State} {l : Ledger}
    (h : t.point.delivers = false) : (note s a t l).delivered = l.delivered := by
  simp [note, h]

theorem Accounted.appends {a : Action} {s s' t : State} {l l' : Ledger} {added : List Message}
    (h : Accounted s l) (hkept : Kept s'.history s'.nextId l'.delivered l'.summarised)
    (happ : Appends a s' t added) (hpending : s'.pending = s.pending)
    (hnone : s.point.inflight = []) (hdelivered : l'.delivered = l.delivered)
    (hqueued : l'.queued = l.queued) : Accounted t l' where
  snapshot := happ.snapshot
  texts := by
    have htexts := h.texts
    rw [hnone, ← hdelivered, ← hqueued] at htexts
    rw [Point.inflight_of_not_delivers happ.quiet, happ.pending, hpending]
    exact htexts
  kept := by
    rw [happ.history]
    exact hkept.append happ.ids

theorem Accounted.effect {a : Action} {s t : State} {l : Ledger} (h : Accounted s l)
    (hloop : a.isLoop = true) (hu : drainUndisturbed s a = true) (heff : Effect a s t) :
    Accounted t (note s a t l) := by
  have hqueued : (note s a t l).queued = l.queued := Action.enqueue_of_isLoop hloop l.queued
  cases heff with
  | append added happ hkeeps =>
    have hgone : goneFrom s.history t.history = [] := happ.history ▸ goneFrom_append_self _ _
    have hdelivered := note_delivered_of_quiet (a := a) (s := s) (l := l) happ.quiet
    refine h.appends ?_ happ rfl (hkeeps.inflight hu) hdelivered hqueued
    rw [hdelivered, note_summarised hgone]
    exact h.kept
  | deliver before id text hhistory hids hnext hsystem htexts hdelivers hsnap =>
    have hgone : goneFrom s.history t.history = [] := hhistory ▸ goneFrom_append_self _ _
    have hdelivered : (note s a t l).delivered = l.delivered ++ [.user id text] := by
      simp [note, hloop, hdelivers, hhistory]
    refine ⟨hsnap, ?_, ?_⟩
    · have hall := h.texts
      rw [htexts] at hall
      rw [hdelivered, hqueued, List.map_append, List.append_assoc]
      exact hall
    · rw [hdelivered, note_summarised hgone, hhistory, hnext, ← List.append_assoc]
      exact (h.kept.append hids).deliver text
  | archive hshape hids hpending hquiet hkeeps hsnap =>
    have hgone : goneFrom s.history t.history = [] := by
      rw [goneFrom, map_id_of_sameShape hshape, List.filter_eq_nil_iff]
      intro m hm
      simp only [decide_eq_true_eq, not_not]
      exact List.mem_map_of_mem hm
    have hdelivered := note_delivered_of_quiet (a := a) (s := s) (l := l) hquiet
    refine ⟨hsnap, ?_, ?_⟩
    · have htexts := h.texts
      rw [hkeeps.inflight hu] at htexts
      rw [hdelivered, hqueued, Point.inflight_of_not_delivers hquiet, hpending]
      exact htexts
    · rw [hdelivered, note_summarised hgone]
      exact h.kept.archive hshape hids
  | summarise summary reserve added hdue happ hkeeps =>
    have hgone : goneFrom s.history t.history =
        goneFrom s.history (replaceOld s.nextId summary reserve s.history) := by
      rw [happ.history]
      refine goneFrom_append fun m hm m' hm' => ?_
      have hlt := h.kept.bound m' (Or.inl hm')
      have hle : s.nextId + 1 ≤ m.id := (happ.ids.mem m hm).1
      omega
    have hdelivered := note_delivered_of_quiet (a := a) (s := s) (l := l) happ.quiet
    have hsummarised : (note s a t l).summarised = l.summarised ++
        goneFrom s.history (replaceOld s.nextId summary reserve s.history) := by
      simp [note, hdue, hgone]
    refine h.appends ?_ happ rfl (hkeeps.inflight hu) hdelivered hqueued
    rw [hdelivered, hsummarised]
    exact h.kept.replaceOld summary reserve

theorem Accounted.outside {a : Action} {s t : State} {l : Ledger} (h : Accounted s l)
    (hloop : a.isLoop = false) (hout : Outside a s t) : Accounted t (note s a t l) := by
  have hdelivered : (note s a t l).delivered = l.delivered := by simp [note, hloop]
  have hsummarised : (note s a t l).summarised = l.summarised := by
    have hno : summarises s.point a = false := by
      cases a <;> first | (cases s.point <;> rfl) | cases hloop
    simp [note, hno]
  refine ⟨?_, ?_, ?_⟩
  · have hsnap := h.snapshot
    unfold SnapshotOk at hsnap ⊢
    rw [hout.point, hout.history]
    exact hsnap
  · have hqueued : (note s a t l).queued = a.enqueue l.queued := rfl
    rw [hdelivered, hout.point, hout.pending, hqueued, ← h.texts, Action.enqueue_append,
      Action.enqueue_append]
  · rw [hdelivered, hsummarised, hout.history, hout.ids]
    exact h.kept

theorem Accounted.step {cfg : Config} {a : Action} {s t : State} {l : Ledger}
    (h : Accounted s l) (hu : drainUndisturbed s a = true)
    (ht : (machine cfg).step s a = some t) : Accounted t (note s a t l) := by
  rcases step_effect h.snapshot ht with ⟨hloop, heff⟩ | ⟨hloop, hout⟩
  · exact h.effect hloop hu heff
  · exact h.outside hloop hout

/-! ## Runs -/

/-- The loop together with its ledger. -/
def ledgered (cfg : Config) : Machine (State × Ledger) Action := (machine cfg).withHistory note

/-- No run is on, nothing is queued, and messages have ids of their own. -/
structure Rested (s : State) : Prop where
  idle : s.point.isIdle = true
  pending : s.pending = []
  bound : ∀ m ∈ s.history, m.id < s.nextId
  once : (s.history.map (·.id)).Nodup

theorem Rested.accounted {s : State} (h : Rested s) : Accounted s {} where
  snapshot := .of_idle h.idle
  texts := by
    obtain ⟨last, hp⟩ := isIdle_iff.mp h.idle
    rw [hp, h.pending]
    rfl
  kept :=
    { user := by simp
      distinct := List.nodup_nil
      once := h.once
      bound := by
        rintro m (hm | hm | hm)
        · exact h.bound m hm
        · cases hm
        · cases hm
      present := by simp
      gone := by simp
      order := by simp }

theorem accounted_run {cfg : Config} {s s' : State} {l : Ledger} {acts : List Action}
    (hs : Rested s) (hu : (machine cfg).Meets (fun s a => drainUndisturbed s a = true) s acts)
    (hrun : (ledgered cfg).run (s, {}) acts = some (s', l)) : Accounted s' l := by
  have hmeets := (machine cfg).meets_withHistory note ({} : Ledger) hu
  refine (ledgered cfg).run_invariant_of_meets (I := fun x => Accounted x.1 x.2)
    ?_ hs.accounted hmeets hrun
  rintro ⟨s, l⟩ a ⟨t, k⟩ hacc hu ht
  obtain ⟨hstep, rfl⟩ := (machine cfg).step_withHistory.mp ht
  exact hacc.step hu hstep

/-- Between the runs, the texts queued so far are the texts delivered
followed by the texts that wait. Each delivered text is a user message of
its own; it is in the history exactly once, or a summary replaced it.
In the history the delivered texts that do not read as summaries stand in
the order in which they were queued. -/
theorem queued_texts_accounted (cfg : Config) {s s' : State} {l : Ledger} {acts : List Action}
    (hs : Rested s) (hu : (machine cfg).Meets (fun s a => drainUndisturbed s a = true) s acts)
    (hrun : (ledgered cfg).run (s, {}) acts = some (s', l)) (hend : s'.point.isIdle = true) :
    l.delivered.map (·.content) ++ s'.pending = l.queued ∧
      (∀ m ∈ l.delivered, m.role = .user ∧
        ((m ∈ s'.history ∧ (s'.history.map (·.id)).count m.id = 1 ∧ m ∉ l.summarised) ∨
          (m ∈ l.summarised ∧ (s'.history.map (·.id)).count m.id = 0))) ∧
      (l.delivered.map (·.id)).Nodup ∧
      (s'.history.filter fun m => decide (m ∈ l.delivered) && !isSummaryMessage m).Sublist
        l.delivered := by
  have hacc := accounted_run hs hu hrun
  refine ⟨?_, fun m hm => ⟨hacc.kept.user m hm, ?_⟩, hacc.kept.distinct, hacc.kept.order⟩
  · obtain ⟨last, hp⟩ := isIdle_iff.mp hend
    have htexts := hacc.texts
    rw [hp] at htexts
    exact htexts
  · by_cases hsum : m ∈ l.summarised
    · exact Or.inr ⟨hsum, List.count_eq_zero_of_not_mem (hacc.kept.gone m hsum)⟩
    · have hmem : m ∈ s'.history := (hacc.kept.present m hm).resolve_right hsum
      refine Or.inl ⟨hmem, ?_, hsum⟩
      exact List.count_eq_one_of_mem hacc.kept.once (List.mem_map_of_mem hmem)

/-- Only summaries take messages out of the history. -/
theorem summarised_eq_nil {cfg : Config} {s s' : State} {l l' : Ledger} {acts : List Action}
    (hl : l.summarised = [])
    (hno : (machine cfg).Meets (fun s a => summarises s.point a = false) s acts)
    (hrun : (ledgered cfg).run (s, l) acts = some (s', l')) : l'.summarised = [] := by
  refine (ledgered cfg).run_invariant_of_meets (I := fun x => x.2.summarised = []) ?_ hl
    ((machine cfg).meets_withHistory note l hno) hrun
  rintro ⟨s, l⟩ a ⟨t, k⟩ hnil hsum ht
  obtain ⟨-, rfl⟩ := (machine cfg).step_withHistory.mp ht
  have hsum' : summarises s.point a = false := hsum
  simpa [note, hsum'] using hnil

/-! ## A summary of queued texts -/

/-- Every text queued is still in the queue or is the text of exactly one
user message, and the order is kept. -/
def QueuedTextsKept (s : State) (queued : List String) : Prop :=
  (∀ text ∈ queued, text ∈ s.pending ∨
    (s.history.filter fun m => m.role == .user && m.content == text).length = 1) ∧
  queued.Sublist ((s.history.filter (·.role == .user)).map (·.content) ++ s.pending)

def newLoop : State where
  gate := { policy := {} }
  recovery := { threshold := 5 }

theorem rested_newLoop : Rested newLoop := ⟨rfl, rfl, by simp [newLoop], List.nodup_nil⟩

/-- Seven texts are queued, and a run starts: it appends them and its own message. -/
def sevenTexts : List Action :=
  (["1", "2", "3", "4", "5", "6", "7"].map .queueUserMessage) ++
    .run "go" :: List.replicate 9 (.resume .done)

/-- The model answers, and the run ends. -/
def answered : List Action :=
  ([.responded { content := "ok" }, .done, .done] : List Answer).map .resume

/-- No summary is due. -/
def unsummarised : List Action :=
  sevenTexts ++ ([.compacted [], .summarized none false] : List Answer).map .resume ++ answered

example : ((ledgered plainConfig).run (newLoop, {}) unsummarised).map
    (fun x => x.2.summarised.length) = some 0 := by decide

/-- The third layer puts a summary in the place of the two oldest messages. -/
def summarisedTexts : List Action :=
  sevenTexts ++
    ([.compacted [], .summarized (some { text := "s" }) false] : List Answer).map .resume ++ answered

/-- The ledger accounts for the seven texts when two of them have been summarised. -/
theorem queued_texts_accounted_summarised :
    ∃ s' l, (ledgered plainConfig).run (newLoop, {}) summarisedTexts = some (s', l) ∧
      l.queued = ["1", "2", "3", "4", "5", "6", "7"] ∧ l.summarised.length = 2 ∧
      l.delivered.map (·.content) ++ s'.pending = l.queued := by
  have hend : ((ledgered plainConfig).run (newLoop, {}) summarisedTexts).map
      (fun x => (x.1.point.isIdle, x.2.queued, x.2.summarised.length)) =
        some (true, ["1", "2", "3", "4", "5", "6", "7"], 2) := by decide
  obtain ⟨⟨s', l⟩, hrun, hfacts⟩ := Option.map_eq_some_iff.mp hend
  simp only [Prod.mk.injEq] at hfacts
  obtain ⟨hidle, hqueued, hlen⟩ := hfacts
  have hclear : (machine plainConfig).Meets (fun s a => drainUndisturbed s a = true) newLoop
      summarisedTexts := by decide
  have haccount := queued_texts_accounted plainConfig rested_newLoop hclear hrun hidle
  exact ⟨s', l, hrun, hqueued, hlen, haccount.1⟩

/-- A summary takes the place of the first queued text. -/
theorem queued_texts_summarised_away :
    ¬ ∀ (cfg : Config) (s s' : State) (l : Ledger) (acts : List Action), Rested s →
      (ledgered cfg).run (s, {}) acts = some (s', l) → s'.point.isIdle = true →
      QueuedTextsKept s' l.queued := by
  intro hclaim
  have hend : ((ledgered plainConfig).run (newLoop, {}) summarisedTexts).map
      (fun x => (x.1.point.isIdle, x.2.queued.contains "1", x.1.pending,
        (x.1.history.filter fun m => m.role == .user && m.content == "1").length)) =
        some (true, true, [], 0) := by decide
  obtain ⟨⟨s', l⟩, hrun, hfacts⟩ := Option.map_eq_some_iff.mp hend
  simp only [Prod.mk.injEq, List.contains_iff_mem] at hfacts
  obtain ⟨hidle, hmem, hpending, hnone⟩ := hfacts
  rcases (hclaim plainConfig newLoop s' l summarisedTexts rested_newLoop hrun hidle).1 "1" hmem
    with hwaits | hone
  · rw [hpending] at hwaits
    cases hwaits
  · rw [hnone] at hone
    cases hone

end NeuralHub.AgentLoop
