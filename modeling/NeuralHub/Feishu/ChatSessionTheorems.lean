/-
NeuralHub.Feishu.ChatSessionTheorems — which messages stay in the stored
session of a chat.

A save puts the history of the turn in the place of all rows, so what was
recorded between the load and the save of a turn is overwritten
(`not_always_stored`). Nothing else is lost but what a compaction has
replaced by a summary: `messages_survive`. The ledger beside the chat keeps
what was recorded and completed, what was recorded since the load of the
turn that is on, what was overwritten, and what was summarised.
-/
import NeuralHub.AgentLoop.RunTheorems
import NeuralHub.Feishu.ChatSession

namespace NeuralHub.Feishu

open NeuralHub.Lib
open NeuralHub.AgentLoop (Message Config SnapshotOk Effect)

variable {timestamp : Nat → Int} {s t : ChatState} {a : Action}

/-! ## The ledger -/

/-- A message of the user or of the assistant. -/
def spoken (m : Message) : Bool := m.role = .user || m.role = .assistant

structure Ledger where
  /-- the messages of the records that were added -/
  recorded : List Message := []
  /-- those among them that were added since the last load -/
  sinceLoad : List Message := []
  /-- those that were there when a turn that had not loaded them has saved -/
  overwritten : List Message := []
  /-- what was spoken in the turn that is on -/
  turn : List Message := []
  /-- what was spoken in the turns that have saved -/
  completed : List Message := []
  /-- what a compaction has replaced by a summary -/
  summarised : List Message := []

/-- The history of the loop. -/
def ChatState.history (s : ChatState) : List Message :=
  match s.loop with
  | some (_, loop) => loop.history
  | none => []

/-- The messages that a turn has loaded. -/
def ChatState.session (s : ChatState) : List Message :=
  match s.turn with
  | .loaded session => session.getD []
  | _ => []

/-- What is spoken in the history and not in the list. -/
def newlySpoken (old history : List Message) : List Message :=
  history.filter fun m => spoken m && decide (m ∉ old)

/-- What a step of the loop has spoken; a summary is nobody's. -/
def spokenBy (s t : ChatState) : List Message :=
  (newlySpoken s.history t.history).filter fun m => m.kind ≠ .summary

/-- What a step of the loop has replaced by a summary. -/
def summarisedBy (s t : ChatState) (a : AgentLoop.Action) : List Message :=
  match s.loop with
  | some (_, loop) =>
    if AgentLoop.summarises loop.point a then newlySpoken t.history s.history else []
  | none => []

/-- The rows that a step has added. -/
def addedRows (s t : ChatState) : List Message :=
  (t.rows.getD []).drop (s.rows.getD []).length

/-- A step of the loop is noted. -/
def Ledger.noteLoop (l : Ledger) (s t : ChatState) (a : AgentLoop.Action) : Ledger :=
  { l with
    turn := l.turn ++ spokenBy s t
    summarised := l.summarised ++ summarisedBy s t a }

def note (s : ChatState) (a : Action) (t : ChatState) (l : Ledger) : Ledger :=
  match a with
  | .load => { l with sinceLoad := [] }
  | .start _ _ _ => { l with turn := newlySpoken s.session t.history }
  | .loop a => l.noteLoop s t a
  | .saveMessages =>
    { l with
      overwritten := l.overwritten ++ l.sinceLoad
      completed := l.completed ++ l.turn }
  | .addRecord _ =>
    { l with
      recorded := l.recorded ++ addedRows s t
      sinceLoad := l.sinceLoad ++ addedRows s t }
  | _ => l

/-- The chat with its ledger. -/
def ledgered (timestamp : Nat → Int) : Machine (ChatState × Ledger) Action :=
  (machine timestamp).withHistory note

/-! ## What a step of the loop keeps -/

theorem not_isTool_of_spoken {m : Message} (h : spoken m = true) : m.isTool = false := by
  unfold spoken at h
  unfold Message.isTool
  cases hrole : m.role with
  | tool =>
    rw [hrole] at h
    cases h
  | _ => rfl

theorem role_ne_system_of_spoken {m : Message} (h : spoken m = true) : m.role ≠ .system := by
  unfold spoken at h
  intro hrole
  rw [hrole] at h
  cases h

theorem mem_of_sameShape {ms ms' : List Message} (h : List.Forall₂ AgentLoop.SameShape ms ms')
    {m : Message} (hm : m ∈ ms) (htool : m.isTool = false) : m ∈ ms' := by
  induction h with
  | nil => cases hm
  | cons hxy _ ih =>
    rcases List.mem_cons.mp hm with rfl | hm
    · rw [hxy.other htool]
      exact List.mem_cons_self
    · exact List.mem_cons_of_mem _ (ih hm)

/-- A spoken message stays in the history, unless a summary takes its place. -/
theorem mem_of_effect {a : AgentLoop.Action} {loop after : AgentLoop.State}
    (h : Effect a loop after) {m : Message} (hm : m ∈ loop.history) (hspoken : spoken m = true) :
    m ∈ after.history ∨ AgentLoop.summarises loop.point a = true := by
  cases h with
  | append added happ _ =>
    rw [happ.history]
    exact Or.inl (List.mem_append_left _ hm)
  | deliver before id text hhistory =>
    rw [hhistory]
    exact Or.inl (List.mem_append_left _ hm)
  | archive hshape => exact Or.inl (mem_of_sameShape hshape hm (not_isTool_of_spoken hspoken))
  | summarise _ _ _ hdue => exact Or.inr hdue

/-- A spoken message is restored. -/
theorem mem_restoredHistory {id : Nat} {systemPrompt : String} {messages : List Message}
    {m : Message} (hm : m ∈ messages) (hspoken : spoken m = true) :
    m ∈ restoredHistory id systemPrompt (some messages) := by
  have hne : messages ≠ [] := List.ne_nil_of_mem hm
  rw [restoredHistory, if_neg hne, restoreMessages]
  have hsame := (AgentLoop.sanitizeMessageHistory_turns (id + 1)
    ({ id, role := .system, content := systemPrompt } ::
      messages.filter fun message => message.role ≠ .system)).2.1
  have hmem : m ∈ ({ id, role := .system, content := systemPrompt } ::
      messages.filter fun message => message.role ≠ .system).filter fun m => !m.isTool := by
    refine List.mem_filter.mpr ⟨List.mem_cons_of_mem _ (List.mem_filter.mpr ⟨hm, ?_⟩), ?_⟩
    · exact decide_eq_true (role_ne_system_of_spoken hspoken)
    · rw [not_isTool_of_spoken hspoken]
      rfl
  rw [← hsame] at hmem
  exact List.mem_of_mem_filter hmem

/-! ## The invariant -/

/-- The turn has a history of its own. -/
def TurnPoint.underway : TurnPoint → Bool
  | .idle | .loaded _ => false
  | _ => true

/-- The list has what was recorded, apart from what is missed or lost, and its own messages,
apart from what was summarised. -/
structure Covers (l : Ledger) (missed own ms : List Message) : Prop where
  recorded : ∀ m ∈ l.recorded, m ∈ ms ∨ m ∈ missed ∨ m ∈ l.overwritten ∨ m ∈ l.summarised
  own : ∀ m ∈ own, m ∈ ms ∨ m ∈ l.summarised

structure Inv (s : ChatState) (l : Ledger) : Prop where
  said : ∀ m ∈ l.recorded ++ (l.completed ++ l.turn), spoken m = true
  stored : Covers l [] l.completed (s.rows.getD [])
  loaded : ∀ session, s.turn = .loaded session →
    Covers l l.sinceLoad l.completed (session.getD [])
  underway : s.turn.underway = true → Covers l l.sinceLoad (l.completed ++ l.turn) s.history
  snapshot : ∀ cfg loop, s.loop = some (cfg, loop) → SnapshotOk loop
  saving : ∀ next, s.turn = .saving next → s.rows.isSome = true

/-- The same messages in another list, or summarised meanwhile. -/
theorem Covers.transfer {l l' : Ledger} {missed own ms ms' : List Message}
    (h : Covers l missed own ms) (hrecorded : l'.recorded = l.recorded)
    (hoverwritten : l'.overwritten = l.overwritten) (hsummarised : l.summarised ⊆ l'.summarised)
    (hspoken : ∀ m ∈ l.recorded ++ own, spoken m = true)
    (hkeep : ∀ m ∈ ms, spoken m = true → m ∈ ms' ∨ m ∈ l'.summarised) :
    Covers l' missed own ms' := by
  constructor
  · intro m hm
    rw [hrecorded] at hm
    rw [hoverwritten]
    rcases h.recorded m hm with hin | hmissed | hover | hgone
    · rcases hkeep m hin (hspoken m (List.mem_append_left _ hm)) with hin | hgone
      · exact Or.inl hin
      · exact Or.inr (Or.inr (Or.inr hgone))
    · exact Or.inr (Or.inl hmissed)
    · exact Or.inr (Or.inr (Or.inl hover))
    · exact Or.inr (Or.inr (Or.inr (hsummarised hgone)))
  · intro m hm
    rcases h.own m hm with hin | hgone
    · exact hkeep m hin (hspoken m (List.mem_append_right _ hm))
    · exact Or.inr (hsummarised hgone)

/-- The same rows and the same loop, at another point of the turn. -/
theorem Inv.of_same {l : Ledger} (h : Inv s l) (hrows : t.rows.getD [] = s.rows.getD [])
    (hloop : t.loop = s.loop)
    (hloaded : ∀ session, t.turn = .loaded session → s.turn = .loaded session)
    (hunderway : t.turn.underway = true → s.turn.underway = true)
    (hsaving : ∀ next, t.turn = .saving next → t.rows.isSome = true) : Inv t l where
  said := h.said
  stored := hrows ▸ h.stored
  loaded session hturn := h.loaded session (hloaded session hturn)
  underway hturn := by
    have hhistory : t.history = s.history := by rw [ChatState.history, hloop, ChatState.history]
    rw [hhistory]
    exact h.underway (hunderway hturn)
  snapshot cfg loop hsome := h.snapshot cfg loop (hloop ▸ hsome)
  saving := hsaving

/-! ## Steps -/

theorem mem_inOrder {rows : Option (List Message)} {m : Message} :
    m ∈ (rows.map (inOrder timestamp)).getD [] ↔ m ∈ rows.getD [] := by
  cases rows with
  | none => rfl
  | some rows => exact List.mem_insertionSort _

theorem Inv.load {l : Ledger} (h : Inv s l) :
    Inv { s with turn := .loaded (s.rows.map (inOrder timestamp)) } { l with sinceLoad := [] } where
  said := h.said
  stored := ⟨h.stored.recorded, h.stored.own⟩
  loaded session hturn := by
    have hsession : s.rows.map (inOrder timestamp) = session := TurnPoint.loaded.inj hturn
    subst hsession
    constructor
    · intro m hm
      rw [mem_inOrder]
      exact h.stored.recorded m hm
    · intro m hm
      rw [mem_inOrder]
      exact h.stored.own m hm
  underway hturn := nomatch hturn
  snapshot := h.snapshot
  saving next hturn := nomatch hturn

theorem after_loaded {turn : TurnPoint} {point : AgentLoop.Point} {session : Option (List Message)}
    (h : turn.after point = .loaded session) : turn = .loaded session := by
  unfold TurnPoint.after at h
  split at h
  · cases h
  · cases h
  · cases h
  · exact h

theorem after_saving {turn : TurnPoint} {point : AgentLoop.Point} {next : AfterPersist}
    (h : turn.after point = .saving next) : turn = .saving next := by
  unfold TurnPoint.after at h
  split at h
  · cases h
  · cases h
  · cases h
  · exact h

theorem underway_of_after {turn : TurnPoint} {point : AgentLoop.Point}
    (h : (turn.after point).underway = true) : turn.underway = true := by
  unfold TurnPoint.after at h
  split at h
  · rfl
  · rfl
  · rfl
  · exact h

theorem mem_newlySpoken {old history : List Message} {m : Message} :
    m ∈ newlySpoken old history ↔ m ∈ history ∧ spoken m = true ∧ m ∉ old := by
  rw [newlySpoken, List.mem_filter, Bool.and_eq_true, decide_eq_true_iff]

/-- A spoken message of the history stays there, or it is noted as summarised. -/
theorem mem_after_loop {cfg : Config} {loop after : AgentLoop.State} {a : AgentLoop.Action}
    (hloop : s.loop = some (cfg, loop)) (hsnap : SnapshotOk loop)
    (hstep : AgentLoop.step cfg { loop with nextId := s.nextId } a = some after)
    (hafter : t.history = after.history) {m : Message} (hm : m ∈ s.history)
    (hspoken : spoken m = true) : m ∈ t.history ∨ m ∈ summarisedBy s t a := by
  have hhistory : s.history = loop.history := by rw [ChatState.history, hloop]
  have hsnap' : SnapshotOk { loop with nextId := s.nextId } := hsnap
  by_cases hin : m ∈ t.history
  · exact Or.inl hin
  · refine Or.inr ?_
    rw [hafter] at hin
    rcases AgentLoop.step_effect hsnap' hstep with ⟨-, heff⟩ | ⟨-, hout⟩
    · rcases mem_of_effect heff (hhistory ▸ hm) hspoken with hin' | hdue
      · exact absurd hin' hin
      · rw [summarisedBy, hloop]
        simp only
        rw [if_pos hdue, mem_newlySpoken, hafter]
        exact ⟨hm, hspoken, hin⟩
    · rw [hout.history] at hin
      exact absurd (hhistory ▸ hm) hin

/-- A step of the loop, whatever becomes of the turn by it. -/
theorem Inv.loop {l : Ledger} (h : Inv s l) {cfg : Config} {loop after : AgentLoop.State}
    {a : AgentLoop.Action} (hloop : s.loop = some (cfg, loop))
    (hstep : AgentLoop.step cfg { loop with nextId := s.nextId } a = some after)
    (ht : t = { s with
      loop := some (cfg, after), nextId := after.nextId, turn := s.turn.after after.point }) :
    Inv t (l.noteLoop s t a) := by
  have hrows : t.rows = s.rows := by rw [ht]
  have hturn : t.turn = s.turn.after after.point := by rw [ht]
  have hafter : t.history = after.history := by rw [ht, ChatState.history]
  have hsnap : SnapshotOk { loop with nextId := s.nextId } := h.snapshot cfg loop hloop
  have hnew : ∀ m ∈ spokenBy s t, m ∈ t.history ∧ spoken m = true := by
    intro m hm
    have hmem := mem_newlySpoken.mp (List.mem_of_mem_filter hm)
    exact ⟨hmem.1, hmem.2.1⟩
  have hspoken : ∀ m ∈ l.recorded ++ l.completed, spoken m = true := by
    intro m hm
    refine h.said m ?_
    rw [← List.append_assoc]
    exact List.mem_append_left _ hm
  have hown : (l.noteLoop s t a).completed ++ (l.noteLoop s t a).turn =
      (l.completed ++ l.turn) ++ spokenBy s t := (List.append_assoc _ _ _).symm
  constructor
  · intro m hm
    rw [hown, ← List.append_assoc, List.mem_append] at hm
    exact hm.elim (h.said m) fun hm => (hnew m hm).2
  · rw [hrows]
    exact h.stored.transfer rfl rfl (List.subset_append_left _ _) hspoken fun m hm _ => Or.inl hm
  · intro session hloaded
    rw [hturn] at hloaded
    exact (h.loaded session (after_loaded hloaded)).transfer rfl rfl
      (List.subset_append_left _ _) hspoken fun m hm _ => Or.inl hm
  · intro hunderway
    rw [hturn] at hunderway
    have hcovers : Covers (l.noteLoop s t a) l.sinceLoad (l.completed ++ l.turn) t.history := by
      refine (h.underway (underway_of_after hunderway)).transfer rfl rfl
        (List.subset_append_left _ _) h.said fun m hm hm' => ?_
      rcases mem_after_loop hloop (h.snapshot cfg loop hloop) hstep hafter hm hm' with hin | hgone
      · exact Or.inl hin
      · exact Or.inr (List.mem_append_right _ hgone)
    refine ⟨hcovers.recorded, fun m hm => ?_⟩
    rw [hown, List.mem_append] at hm
    exact hm.elim (hcovers.own m) fun hm => Or.inl (hnew m hm).1
  · intro cfg' loop' hsome
    rw [ht] at hsome
    cases hsome
    exact AgentLoop.snapshotOk_step hsnap hstep
  · intro next hsaving
    rw [hturn] at hsaving
    rw [hrows]
    exact h.saving next (after_saving hsaving)

theorem summarises_run (point : AgentLoop.Point) (text : String) :
    AgentLoop.summarises point (.run text) = false := by
  cases point <;> rfl

/-- The start of a run restores what was loaded. -/
theorem Inv.start {l : Ledger} (h : Inv s l) {session : Option (List Message)} {cfg : Config}
    {loop : AgentLoop.State} {systemPrompt text : String} (hsession : s.turn = .loaded session)
    (ht : s.start session cfg loop systemPrompt text = some t) :
    Inv t { l with turn := newlySpoken s.session t.history } := by
  unfold ChatState.start ChatState.stepLoop at ht
  obtain ⟨after, hstep, rfl⟩ := Option.map_eq_some_iff.mp ht
  simp only [AgentLoop.step] at hstep
  split at hstep
  · next hidle =>
    obtain ⟨restored, hrestored, heff⟩ : ∃ restored : AgentLoop.State,
        restored.history = restoredHistory s.nextId systemPrompt session ∧
          Effect (.run text) restored after := by
      have hidle' : ({ loop with
          history := restoredHistory s.nextId systemPrompt session
          nextId := s.nextId + 1 + (session.getD []).length } :
            AgentLoop.State).point.isIdle = true := hidle
      cases hstep
      exact ⟨_, rfl, AgentLoop.effect_begin _ hidle' text⟩
    have hmem : ∀ m ∈ session.getD [], spoken m = true → m ∈ after.history := by
      intro m hm hspoken
      cases session with
      | none => cases hm
      | some messages =>
        have hback := hrestored ▸ mem_restoredHistory hm hspoken
        rcases mem_of_effect heff hback hspoken with hin | hdue
        · exact hin
        · rw [summarises_run] at hdue
          cases hdue
    have hnew : ∀ m ∈ newlySpoken s.session after.history, m ∈ after.history ∧ spoken m = true :=
      fun m hm => ⟨(mem_newlySpoken.mp hm).1, (mem_newlySpoken.mp hm).2.1⟩
    have hspoken : ∀ m ∈ l.recorded ++ l.completed, spoken m = true := by
      intro m hm
      refine h.said m ?_
      rw [← List.append_assoc]
      exact List.mem_append_left _ hm
    constructor
    · intro m hm
      rw [← List.append_assoc, List.mem_append] at hm
      exact hm.elim (hspoken m) fun hm => (hnew m hm).2
    · exact ⟨h.stored.recorded, h.stored.own⟩
    · exact fun _ hturn => by cases after_loaded hturn
    · intro _
      have hcovers : Covers l l.sinceLoad l.completed after.history :=
        (h.loaded session hsession).transfer rfl rfl (List.Subset.refl _) hspoken fun m hm hm' =>
          Or.inl (hmem m hm hm')
      refine ⟨hcovers.recorded, fun m hm => ?_⟩
      rcases List.mem_append.mp hm with hm | hm
      · exact hcovers.own m hm
      · exact Or.inl (hnew m hm).1
    · intro _ _ hsome
      cases hsome
      exact heff.snapshot
    · exact fun _ hturn => by cases after_saving hturn
  · cases hstep

/-- A save loses what was recorded since the load, and nothing else. -/
theorem Inv.save {l : Ledger} (h : Inv s l) {next : AfterPersist} (hturn : s.turn = .saving next) :
    Inv { s with
        rows := s.rows.map fun _ => messagesWithoutSystem s.history
        turn := next.point }
      { l with
        overwritten := l.overwritten ++ l.sinceLoad
        completed := l.completed ++ l.turn } := by
  have hcovers := h.underway (by rw [hturn]; rfl)
  have hrows : (s.rows.map fun _ => messagesWithoutSystem s.history).getD [] =
      messagesWithoutSystem s.history := by
    obtain ⟨rows, hsome⟩ := Option.isSome_iff_exists.mp (h.saving next hturn)
    rw [hsome]
    rfl
  have hsaved : ∀ m ∈ s.history, spoken m = true → m ∈ messagesWithoutSystem s.history :=
    fun m hm hm' => List.mem_filter.mpr ⟨hm, decide_eq_true (role_ne_system_of_spoken hm')⟩
  have hsaid : ∀ m ∈ l.recorded ++ ((l.completed ++ l.turn) ++ l.turn), spoken m = true := by
    intro m hm
    refine h.said m ?_
    simp only [List.mem_append] at hm ⊢
    tauto
  have hover : ∀ m ∈ l.recorded, m ∈ messagesWithoutSystem s.history ∨
      m ∈ l.overwritten ++ l.sinceLoad ∨ m ∈ l.summarised := by
    intro m hm
    have hspoken := h.said m (List.mem_append_left _ hm)
    rcases hcovers.recorded m hm with hin | hmissed | hover | hgone
    · exact Or.inl (hsaved m hin hspoken)
    · exact Or.inr (Or.inl (List.mem_append_right _ hmissed))
    · exact Or.inr (Or.inl (List.mem_append_left _ hover))
    · exact Or.inr (Or.inr hgone)
  have hown : ∀ m ∈ l.completed ++ l.turn,
      m ∈ messagesWithoutSystem s.history ∨ m ∈ l.summarised := by
    intro m hm
    have hspoken := h.said m (List.mem_append_right _ hm)
    exact (hcovers.own m hm).imp (fun hin => hsaved m hin hspoken) id
  have hkept : ∀ m ∈ messagesWithoutSystem s.history, m ∈ s.history := fun m hm =>
    List.mem_of_mem_filter hm
  constructor
  · exact hsaid
  · rw [hrows]
    exact ⟨fun m hm => (hover m hm).imp id Or.inr, hown⟩
  · intro session hloaded
    cases next <;> cases hloaded
  · intro _
    refine ⟨fun m hm => ?_, fun m hm => ?_⟩
    · exact (hover m hm).imp (hkept m) Or.inr
    · refine (hown m ?_).imp (hkept m) id
      rcases List.mem_append.mp hm with hm | hm
      · exact hm
      · exact List.mem_append_right _ hm
  · exact h.snapshot
  · intro _ hsaving
    cases next <;> cases hsaving

theorem addedRows_append {added : List Message}
    (h : t.rows = s.rows.map fun rows => rows ++ added) :
    t.rows.getD [] = s.rows.getD [] ++ addedRows s t ∧ addedRows s t ⊆ added := by
  unfold addedRows
  rw [h]
  cases s.rows with
  | none => exact ⟨rfl, List.nil_subset _⟩
  | some rows =>
    have hdrop : ((some rows).map fun rows => rows ++ added).getD [] = rows ++ added := rfl
    rw [hdrop, Option.getD_some, List.drop_left' rfl]
    exact ⟨rfl, List.Subset.refl _⟩

/-- A record adds its message to the rows. -/
theorem Inv.addRecord {l : Ledger} (h : Inv s l) {content : String} {added : List Message}
    (hadded : added = [recordMessage s.nextId content])
    (hrows : t.rows = s.rows.map fun rows => rows ++ added) (hloop : t.loop = s.loop)
    (hturn : t.turn = s.turn) :
    Inv t { l with
      recorded := l.recorded ++ addedRows s t
      sinceLoad := l.sinceLoad ++ addedRows s t } := by
  obtain ⟨hnew, hsub⟩ := addedRows_append hrows
  have hhistory : t.history = s.history := by rw [ChatState.history, hloop, ChatState.history]
  have hmissed : ∀ {own ms : List Message}, Covers l l.sinceLoad own ms →
      Covers { l with
        recorded := l.recorded ++ addedRows s t
        sinceLoad := l.sinceLoad ++ addedRows s t } (l.sinceLoad ++ addedRows s t) own ms := by
    intro own ms hcovers
    refine ⟨fun m hm => ?_, hcovers.own⟩
    rcases List.mem_append.mp hm with hm | hm
    · exact (hcovers.recorded m hm).imp id (Or.imp (List.mem_append_left _) id)
    · exact Or.inr (Or.inl (List.mem_append_right _ hm))
  constructor
  · intro m hm
    rcases List.mem_append.mp hm with hm | hm
    · rcases List.mem_append.mp hm with hm | hm
      · exact h.said m (List.mem_append_left _ hm)
      · have hm := hsub hm
        rw [hadded, List.mem_singleton] at hm
        rw [hm]
        rfl
    · exact h.said m (List.mem_append_right _ hm)
  · rw [hnew]
    refine ⟨fun m hm => ?_, fun m hm => ?_⟩
    · rcases List.mem_append.mp hm with hm | hm
      · exact (h.stored.recorded m hm).imp (List.mem_append_left _) id
      · exact Or.inl (List.mem_append_right _ hm)
    · exact (h.stored.own m hm).imp (List.mem_append_left _) id
  · exact fun session hloaded => hmissed (h.loaded session (hturn ▸ hloaded))
  · intro hunderway
    rw [hhistory]
    exact hmissed (h.underway (hturn ▸ hunderway))
  · exact fun cfg loop hsome => h.snapshot cfg loop (hloop ▸ hsome)
  · intro next hsaving
    rw [hrows, Option.isSome_map]
    exact h.saving next (hturn ▸ hsaving)

/-- After `_persist_turn`. -/
theorem Inv.to_next {l : Ledger} (h : Inv s l) (next : AfterPersist)
    (hunderway : s.turn.underway = true) : Inv { s with turn := next.point } l := by
  refine h.of_same rfl rfl (fun _ hloaded => ?_) (fun _ => hunderway) fun _ hsaving => ?_
  · cases next <;> cases hloaded
  · cases next <;> cases hsaving

theorem inv_step {l : Ledger} (h : Inv s l) (ht : step timestamp s a = some t) :
    Inv t (note s a t l) := by
  cases a with
  | load =>
    simp only [step] at ht
    split at ht
    · cases ht
      exact h.load
    · cases ht
  | start built systemPrompt text =>
    simp only [step] at ht
    split at ht
    · next session cfg loop hturn _ => exact h.start hturn ht
    · cases ht
  | loop a =>
    simp only [step] at ht
    split at ht
    · next cfg loop hloop =>
      split at ht
      · obtain ⟨after, hstep, rfl⟩ := Option.map_eq_some_iff.mp ht
        exact h.loop hloop hstep rfl
      · cases ht
    · cases ht
  | ensureSession =>
    simp only [step] at ht
    split at ht
    · next next hturn =>
      cases ht
      refine h.of_same rfl rfl (fun _ hloaded => nomatch hloaded) (fun _ => ?_) fun _ _ => rfl
      rw [hturn]
      rfl
    · cases ht
  | saveMessages =>
    simp only [step] at ht
    split at ht
    · next next cfg loop hturn hloop =>
      cases ht
      have hhistory : s.history = loop.history := by rw [ChatState.history, hloop]
      rw [← hhistory]
      exact h.save hturn
    · cases ht
  | persistFails =>
    simp only [step] at ht
    split at ht
    · next next hturn =>
      cases ht
      exact h.to_next next (by rw [hturn]; rfl)
    · next next hturn =>
      cases ht
      exact h.to_next next (by rw [hturn]; rfl)
    · cases ht
  | replied =>
    simp only [step] at ht
    split at ht
    · next hturn =>
      cases ht
      exact h.to_next .stop (by rw [hturn]; rfl)
    · cases ht
  | replyRaised =>
    simp only [step] at ht
    split at ht
    · next hturn =>
      cases ht
      refine h.of_same rfl rfl (fun _ hloaded => nomatch hloaded) (fun _ => ?_)
        fun _ hsaving => nomatch hsaving
      rw [hturn]
      rfl
    · cases ht
  | giveUp =>
    simp only [step] at ht
    split at ht
    · cases ht
    · cases ht
    · cases ht
      exact h.of_same rfl rfl (fun _ hloaded => nomatch hloaded) (fun hidle => nomatch hidle)
        fun _ hsaving => nomatch hsaving
  | ensureRecord r =>
    simp only [step] at ht
    split at ht
    · cases ht
      exact h.of_same rfl rfl (fun _ hloaded => hloaded) id fun _ _ => rfl
    · cases ht
  | addRecord r =>
    simp only [step] at ht
    split at ht
    · next content _ =>
      split at ht
      · cases ht
        exact h.addRecord rfl rfl rfl rfl
      · cases ht
    · cases ht
  | recordFails r =>
    simp only [step] at ht
    split at ht
    · cases ht
      exact h.of_same rfl rfl (fun _ hloaded => hloaded) id h.saving
    · cases ht

/-! ## Runs -/

/-- A chat of which no turn is on. -/
def newChat (rows : Option (List Message)) (nextId : Nat) : ChatState := { rows, nextId }

/-- **What stays**: at any moment of any run, every recorded message is in the stored
session, or a turn that had been loaded before it was recorded has saved, or a compaction has
replaced it by a summary; every message of a completed turn is in the stored session, or
summarised. -/
theorem messages_survive (timestamp : Nat → Int) (rows : Option (List Message)) (nextId : Nat)
    (as : List Action) (s : ChatState) (l : Ledger)
    (hrun : (ledgered timestamp).run (newChat rows nextId, {}) as = some (s, l)) :
    (∀ m ∈ l.recorded, m ∈ s.rows.getD [] ∨ m ∈ l.overwritten ∨ m ∈ l.summarised) ∧
      ∀ m ∈ l.completed, m ∈ s.rows.getD [] ∨ m ∈ l.summarised := by
  have hstart : Inv (newChat rows nextId) {} := by
    constructor
    · exact fun m hm => absurd hm List.not_mem_nil
    · exact ⟨fun m hm => absurd hm List.not_mem_nil, fun m hm => absurd hm List.not_mem_nil⟩
    · exact fun _ hturn => nomatch hturn
    · exact fun hturn => nomatch hturn
    · exact fun _ _ hloop => nomatch hloop
    · exact fun _ hturn => nomatch hturn
  have hend : Inv s l := Machine.run_invariant (I := fun x => Inv x.1 x.2) (ledgered timestamp)
    (fun _ _ _ hinv hstep => by
      obtain ⟨hmachine, hnote⟩ := (machine timestamp).step_withHistory.mp hstep
      rw [hnote]
      exact inv_step hinv hmachine) hstart hrun
  refine ⟨fun m hm => ?_, hend.stored.own⟩
  exact (hend.stored.recorded m hm).imp id fun hlost => hlost.resolve_left List.not_mem_nil

def plainLoop : AgentLoop.State where
  gate := { policy := {} }
  recovery := { threshold := 5 }

def note1 : OutboundRecord := .text "x" "s"

def recordIt : List Action := [.ensureRecord note1, .addRecord note1]

/-- A run with one answer of the model, from its start to the reply. -/
def turnOf (summary : Option AgentLoop.Summary) : List Action :=
  .start (some (AgentLoop.plainConfig, plainLoop)) "p" "hi" ::
    ([.done, .done, .compacted [], .summarized summary false, .responded ⟨"ok", [], ""⟩, .done,
      .done] : List AgentLoop.Answer).map (fun answer => .loop (.resume answer)) ++
    [.ensureSession, .saveMessages, .replied]

/-- The record comes between the load and the save. -/
def recordedInTurn : List Action := .load :: recordIt ++ turnOf none

/-- Seven records, and then a turn whose compaction replaces the first two. -/
def recordedBefore : List Action :=
  (List.replicate 7 recordIt).flatten ++ .load :: turnOf (some ⟨"s", "", ""⟩)

theorem messages_survive_recordedBefore :
    ∃ s l, (ledgered fun _ => 0).run (newChat none 0, {}) recordedBefore = some (s, l) ∧
      l.recorded.length = 7 ∧ l.summarised.length = 2 ∧ l.overwritten = [] ∧
      (∀ m ∈ l.recorded, m ∈ s.rows.getD [] ∨ m ∈ l.overwritten ∨ m ∈ l.summarised) ∧
      ∀ m ∈ l.completed, m ∈ s.rows.getD [] ∨ m ∈ l.summarised := by
  have hend : ((ledgered fun _ => 0).run (newChat none 0, {}) recordedBefore).map
      (fun x => (x.2.recorded.length, x.2.summarised.length, x.2.overwritten)) =
        some (7, 2, []) := by decide +kernel
  obtain ⟨⟨s, l⟩, hrun, hfacts⟩ := Option.map_eq_some_iff.mp hend
  simp only [Prod.mk.injEq] at hfacts
  exact ⟨s, l, hrun, hfacts.1, hfacts.2.1, hfacts.2.2,
    messages_survive (fun _ => 0) none 0 recordedBefore s l hrun⟩

/-- All that was recorded and completed is stored. -/
def AllStored (s : ChatState) (l : Ledger) : Prop :=
  ∀ m ∈ l.recorded ++ l.completed, m ∈ s.rows.getD []

instance (s : ChatState) (l : Ledger) : Decidable (AllStored s l) :=
  inferInstanceAs (Decidable (∀ m ∈ l.recorded ++ l.completed, m ∈ s.rows.getD []))

theorem not_allStored_of_run {as : List Action}
    (h : ((ledgered fun _ => 0).run (newChat none 0, {}) as).map
      (fun x => (decide (x.1.turn = .idle), decide (AllStored x.1 x.2))) = some (true, false)) :
    ¬ ∀ s l, (ledgered fun _ => 0).run (newChat none 0, {}) as = some (s, l) →
      s.turn = .idle → AllStored s l := by
  intro hall
  obtain ⟨⟨s, l⟩, hrun, hfacts⟩ := Option.map_eq_some_iff.mp h
  simp only [Prod.mk.injEq, decide_eq_true_eq, decide_eq_false_iff_not] at hfacts
  exact hfacts.2 (hall s l hrun hfacts.1)

/-- A turn overwrites a record that it has not loaded, and a compaction takes old ones out. -/
theorem not_always_stored :
    ¬ (∀ s l, (ledgered fun _ => 0).run (newChat none 0, {}) recordedInTurn = some (s, l) →
      s.turn = .idle → AllStored s l) ∧
    ¬ ∀ s l, (ledgered fun _ => 0).run (newChat none 0, {}) recordedBefore = some (s, l) →
      s.turn = .idle → AllStored s l :=
  ⟨not_allStored_of_run (by decide +kernel), not_allStored_of_run (by decide +kernel)⟩

end NeuralHub.Feishu
