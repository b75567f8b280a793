/-
NeuralHub.AgentLoop.RunTheorems — what one step of a run does to the
history and to the queued texts.

`Effect` lists it once: messages of the loop's own making are appended,
or one queued text is moved to the history, or results are moved to
files, or a summary takes the place of old messages. Everything about
whole runs that does not depend on the calls of a turn is read off
`step_effect`.

The texts that wait are those in the queue and, in front of them, those
that were drained and are not yet appended (`Point.inflight`).
-/
import NeuralHub.AgentLoop.Run
import NeuralHub.AgentLoop.CompactionTheorems

namespace NeuralHub.AgentLoop

open NeuralHub.Lib

/-- Texts that were drained from the queue and are still to be appended. -/
def Point.inflight : Point → List String
  | .leftover rest _ => rest
  | .steering rest => rest
  | _ => []

/-- The loop is appending a queued text. -/
def Point.delivers : Point → Bool
  | .leftover _ _ | .steering _ => true
  | _ => false

theorem Point.inflight_of_not_delivers {p : Point} (h : p.delivers = false) : p.inflight = [] := by
  cases p <;> first | rfl | cases h

/-- Compaction started from the history there is. -/
def SnapshotOk (s : State) : Prop :=
  match s.point with
  | .compactOldest snapshotLen | .archive snapshotLen | .compact snapshotLen =>
      snapshotLen = s.history.length
  | _ => True

theorem SnapshotOk.of_idle {s : State} (h : s.point.isIdle = true) : SnapshotOk s := by
  unfold SnapshotOk
  cases hp : s.point with
  | idle last => trivial
  | _ => rw [hp] at h; cases h

/-- A stage that puts a summary in the place of old messages. -/
def summarises (p : Point) (a : Action) : Bool :=
  match p, a with
  | .archive _, .resume (.summarized (some _) _) => true
  | .compact _, .resume (.compactedAll _ _) => true
  | _, _ => false

/-- `added` carries ids from `lo` on and below `hi`, each of them once. -/
structure NewIds (lo : Nat) (added : List Message) (hi : Nat) : Prop where
  nodup : (added.map (·.id)).Nodup
  mem : ∀ m ∈ added, lo ≤ m.id ∧ m.id < hi
  le : lo ≤ hi

theorem NewIds.nil {lo hi : Nat} (h : lo ≤ hi) : NewIds lo [] hi :=
  ⟨List.nodup_nil, by simp, h⟩

theorem NewIds.snoc {lo hi : Nat} {added : List Message} {m : Message} (h : NewIds lo added hi)
    (hm : m.id = hi) : NewIds lo (added ++ [m]) (hi + 1) where
  nodup := by
    rw [List.map_append, List.nodup_append]
    refine ⟨h.nodup, by simp, ?_⟩
    intro x hx y hy
    obtain ⟨m', hm', rfl⟩ := List.mem_map.mp hx
    rw [List.map_singleton, List.mem_singleton] at hy
    have := (h.mem m' hm').2
    omega
  mem m' hm' := by
    have hle := h.le
    rcases List.mem_append.mp hm' with hm' | hm'
    · have := h.mem m' hm'
      omega
    · rw [List.mem_singleton.mp hm']
      omega
  le := Nat.le_succ_of_le h.le

theorem NewIds.one {lo : Nat} {m : Message} (hm : m.id = lo) : NewIds lo [m] (lo + 1) :=
  NewIds.snoc (.nil (Nat.le_refl lo)) hm

theorem NewIds.mono {lo lo' hi : Nat} {added : List Message} (h : NewIds lo' added hi)
    (hle : lo ≤ lo') : NewIds lo added hi :=
  ⟨h.nodup, fun m hm => ⟨Nat.le_trans hle (h.mem m hm).1, (h.mem m hm).2⟩, Nat.le_trans hle h.le⟩

/-- Messages that the loop appends in a step: in no pair, or the results
of a turn, or the response of the model. -/
def OwnMessage (a : Action) (m : Message) : Prop :=
  (m.calling = false ∧ m.isTool = false) ∨ (∃ id results, m = .tool id results) ∨
    ∃ id r, a = .resume (.responded r) ∧ m = assistantMessage id r

/-- The loop appends messages of its own and leaves the queue alone. -/
structure Appends (a : Action) (s t : State) (added : List Message) : Prop where
  history : t.history = s.history ++ added
  ids : NewIds s.nextId added t.nextId
  own : ∀ m ∈ added, OwnMessage a m
  pending : t.pending = s.pending
  quiet : t.point.delivers = false
  snapshot : SnapshotOk t

/-- Nothing is lost of the texts on their way, unless the step is an interruption. -/
def Keeps (a : Action) (s : State) : Prop :=
  s.point.inflight = [] ∨ a = .resume .raised ∨ a = .resume .cancelled

/-- What a step of the loop does. -/
inductive Effect (a : Action) (s t : State) : Prop
  | append (added : List Message) (h : Appends a s t added) (keeps : Keeps a s)
  | deliver (before : List Message) (id : Nat) (text : String)
      (history : t.history = s.history ++ (before ++ [.user id text]))
      (ids : NewIds s.nextId before id) (next : t.nextId = id + 1)
      (system : ∀ m ∈ before, m.role = .system)
      (texts : s.point.inflight ++ s.pending = text :: (t.point.inflight ++ t.pending))
      (delivers : t.point.delivers = true) (snapshot : SnapshotOk t)
  | archive (shape : List.Forall₂ SameShape s.history t.history) (ids : s.nextId ≤ t.nextId)
      (pending : t.pending = s.pending) (quiet : t.point.delivers = false) (keeps : Keeps a s)
      (snapshot : SnapshotOk t)
  | summarise (summary : Summary) (reserve : Nat) (added : List Message)
      (due : summarises s.point a = true)
      (h : Appends a { s with
        history := replaceOld s.nextId summary reserve s.history
        nextId := s.nextId + 1 } t added) (keeps : Keeps a s)

/-! ## The code between two awaits -/

variable {a : Action}

/-- The loop goes on without a message. -/
theorem Appends.none {s t : State} (history : t.history = s.history) (ids : t.nextId = s.nextId)
    (pending : t.pending = s.pending) (quiet : t.point.delivers = false)
    (snapshot : SnapshotOk t) : Appends a s t [] where
  history := history.trans (List.append_nil _).symm
  ids := .nil (Nat.le_of_eq ids.symm)
  own := by simp
  pending := pending
  quiet := quiet
  snapshot := snapshot

theorem Appends.one {s t : State} {m : Message} (history : t.history = s.history ++ [m])
    (hid : m.id = s.nextId) (ids : t.nextId = s.nextId + 1) (own : OwnMessage a m)
    (pending : t.pending = s.pending) (quiet : t.point.delivers = false)
    (snapshot : SnapshotOk t) : Appends a s t [m] where
  history := history
  ids := ids ▸ .one hid
  own _ hm := List.mem_singleton.mp hm ▸ own
  pending := pending
  quiet := quiet
  snapshot := snapshot

/-- The state it started from matters through three of its fields. -/
theorem Appends.of_eq {s s' t : State} {added : List Message} (h : Appends a s' t added)
    (history : s'.history = s.history) (ids : s.nextId ≤ s'.nextId)
    (pending : s'.pending = s.pending) : Appends a s t added where
  history := by rw [h.history, history]
  ids := h.ids.mono ids
  own := h.own
  pending := h.pending.trans pending
  quiet := h.quiet
  snapshot := h.snapshot

theorem appends_raiseError (s : State) (f : Failure) : Appends a s (s.raiseError f) [] :=
  .none rfl rfl rfl rfl trivial

theorem appends_finish (s : State) (o : RunOutcome) : Appends a s (s.finish o) [] :=
  .none rfl rfl rfl rfl trivial

theorem appends_patchAndCheckpoint (s : State) (o : RunOutcome) :
    ∃ added, Appends a s (s.patchAndCheckpoint o) added := by
  unfold State.patchAndCheckpoint
  dsimp only
  split
  · exact ⟨[], appends_finish s o⟩
  · rename_i hlen
    have hpatch : ∃ last, patchOrphanToolCalls s.nextId s.history =
        s.history ++ [.tool s.nextId (buildOrphanToolResults last)] := by
      unfold patchOrphanToolCalls at hlen ⊢
      split at hlen
      · exact absurd rfl hlen
      · rename_i last hlast
        split at hlen
        · exact absurd rfl hlen
        · rename_i hopen
          exact ⟨last, by rw [if_neg hopen]⟩
    obtain ⟨last, hlast⟩ := hpatch
    exact ⟨_, .one hlast rfl rfl (Or.inr (Or.inl ⟨_, _, rfl⟩)) rfl rfl trivial⟩

theorem appends_afterCompaction (cfg : Config) (s : State) :
    ∃ added, Appends a s (s.afterCompaction cfg) added := by
  unfold State.afterCompaction
  split
  · exact ⟨[], (List.append_nil _).symm, .nil (Nat.le_refl _), by simp, rfl, rfl, trivial⟩
  · refine ⟨[guardMessage s.nextId _], rfl, .one rfl, ?_, rfl, rfl, trivial⟩
    intro m hm
    rw [List.mem_singleton.mp hm]
    exact Or.inl ⟨rfl, rfl⟩

theorem appends_startExecution (cfg : Config) (s : State) (t : Turn) :
    Appends a s (s.startExecution cfg t) [] := by
  unfold State.startExecution
  split
  · exact appends_raiseError s _
  · exact .none rfl rfl rfl rfl trivial

theorem appends_askUser (cfg : Config) (s : State) (t : Turn) (calls : List ToolCall) :
    Appends a s (s.askUser cfg t calls) [] := by
  induction calls generalizing t with
  | nil => exact appends_startExecution cfg s t
  | cons call rest ih =>
    unfold State.askUser
    split
    · exact ih _
    · exact .none rfl rfl rfl rfl trivial

theorem appends_startTurn (cfg : Config) (s : State) (calls : List ToolCall) :
    Appends a s (s.startTurn cfg calls) [] := by
  unfold State.startTurn
  dsimp only
  split
  · exact appends_raiseError s _
  · rename_i g auth _
    have hexec := appends_startExecution (a := a) cfg { s with gate := g }
      ⟨calls, (s.recovery.splitRepeated cfg.describe calls).2, auth, {}⟩
    split
    · exact hexec.of_eq rfl (Nat.le_refl _) rfl
    · split
      · exact .none rfl rfl rfl rfl trivial
      · have hask := appends_askUser (a := a) cfg { s with gate := g }
          ⟨calls, (s.recovery.splitRepeated cfg.describe calls).2, auth,
            { ({ human := auth.pendingApproval } : Approvals) with human := [] }⟩
          auth.pendingApproval
        exact hask.of_eq rfl (Nat.le_refl _) rfl

theorem appends_finishTurn (cfg : Config) (s : State) (t : Turn) (signed : List SignedToolCall)
    (readResults : List (Option ToolResult)) (writeResults : List ToolResult) :
    ∃ added, Appends a s (s.finishTurn cfg t signed readResults writeResults) added := by
  unfold State.finishTurn
  split
  · exact ⟨[], appends_raiseError s _⟩
  · exact ⟨[.tool s.nextId _], .one rfl rfl rfl (Or.inr (Or.inl ⟨_, _, rfl⟩)) rfl rfl trivial⟩

/-- `steer`, started in `s₀` and entered in `s` with `texts` to append. -/
theorem effect_steer {s₀ s : State} {texts : List String} (hhistory : s.history = s₀.history)
    (hid : s.nextId = s₀.nextId)
    (htexts : s₀.point.inflight ++ s₀.pending = texts ++ s.pending)
    (hnil : texts = [] → s₀.point.inflight = []) : Effect a s₀ (s.steer texts) := by
  cases texts with
  | nil =>
    have hnone := hnil rfl
    rw [hnone, List.nil_append, List.nil_append] at htexts
    refine .append [] ⟨?_, .nil (Nat.le_of_eq hid.symm), by simp, htexts.symm, rfl, rfl⟩
      (Or.inl hnone)
    exact hhistory.trans (List.append_nil _).symm
  | cons text rest =>
    refine .deliver [] s.nextId text ?_ (.nil (Nat.le_of_eq hid.symm)) rfl (by simp) htexts rfl
      trivial
    simp only [State.steer, State.append, hhistory, List.nil_append]

theorem effect_nextIteration (cfg : Config) {s : State} (hnone : s.point.inflight = []) :
    Effect a s (s.nextIteration cfg) := by
  unfold State.nextIteration
  split
  · refine effect_steer rfl rfl ?_ fun _ => hnone
    rw [hnone, List.nil_append, List.append_nil]
  · exact .append [] (appends_raiseError s _) (Or.inl hnone)

theorem effect_injectLeftover {s₀ s : State} (before : List Message) {userMessage : String}
    {texts : List String} (hhistory : s.history = s₀.history ++ before)
    (hids : NewIds s₀.nextId before s.nextId) (hsystem : ∀ m ∈ before, m.role = .system)
    (htexts : s₀.point.inflight ++ s₀.pending = texts ++ s.pending)
    (hnil : texts = [] → s₀.point.inflight = []) :
    Effect a s₀ (s.injectLeftover userMessage texts) := by
  have hnew : ∀ text, NewIds s₀.nextId (before ++ [.user s.nextId text]) (s.nextId + 1) :=
    fun text => hids.snoc rfl
  cases texts with
  | nil =>
    have hnone := hnil rfl
    rw [hnone, List.nil_append, List.nil_append] at htexts
    refine .append (before ++ [.user s.nextId userMessage])
      ⟨?_, hnew userMessage, ?_, htexts.symm, rfl, trivial⟩ (Or.inl hnone)
    · simp only [State.injectLeftover, State.append, hhistory, List.append_assoc]
    · intro m hm
      rcases List.mem_append.mp hm with hm | hm
      · exact Or.inl (not_calling_of_role (Or.inr (hsystem m hm)))
      · rw [List.mem_singleton.mp hm]
        exact Or.inl ⟨rfl, rfl⟩
  | cons text rest =>
    refine .deliver before s.nextId text ?_ hids rfl hsystem htexts rfl trivial
    simp only [State.injectLeftover, State.append, hhistory, List.append_assoc]

theorem effect_begin (cfg : Config) {s : State} (hidle : s.point.isIdle = true)
    (userMessage : String) : Effect a s (s.begin cfg userMessage) := by
  have hnone : s.point.inflight = [] := by
    obtain ⟨last, hp⟩ := isIdle_iff.mp hidle
    rw [hp]
    rfl
  have htexts : s.point.inflight ++ s.pending = s.pending ++ [] := by
    rw [hnone, List.nil_append, List.append_nil]
  unfold State.begin State.ensureSystemMessage
  dsimp only
  split
  · rename_i hempty
    refine effect_injectLeftover
      [{ id := s.nextId, role := .system, content := cfg.systemPrompt }]
      ?_ (.one rfl) ?_ htexts fun _ => hnone
    · rw [hempty.1, List.nil_append]
    · intro m hm
      rw [List.mem_singleton.mp hm]
  · exact effect_injectLeftover [] (List.append_nil _).symm (.nil (Nat.le_refl _))
      (by simp) htexts fun _ => hnone

theorem effect_afterAssistant (cfg : Config) {s : State} (m : Message)
    (hnone : s.point.inflight = []) : Effect a s (s.afterAssistant cfg m) := by
  unfold State.afterAssistant
  split
  · split
    · exact effect_nextIteration cfg hnone
    · exact .append [] (.none rfl rfl rfl rfl trivial) (Or.inl hnone)
  · exact .append [] (appends_startTurn cfg s _) (Or.inl hnone)

/-! ## Steps -/

theorem effect_interruptRaised {cfg : Config} {s t : State} (h : interruptRaised cfg s = some t) :
    Effect (.resume .raised) s t := by
  have hkeeps : Keeps (.resume .raised) s := Or.inr (Or.inl rfl)
  unfold interruptRaised at h
  split at h
  case h_1 => cases h
  case h_5 => exact Option.some.inj h ▸ .append [] (appends_finish s _) hkeeps
  case h_6 => exact Option.some.inj h ▸ .append [] (appends_finish s _) hkeeps
  case h_7 => exact Option.some.inj h ▸ .append [] (appends_raiseError s _) hkeeps
  all_goals
    obtain ⟨added, happ⟩ := appends_afterCompaction (a := .resume .raised) cfg s
    exact Option.some.inj h ▸ .append added happ hkeeps

theorem effect_interruptCancelled {s t : State} (h : interruptCancelled s = some t) :
    Effect (.resume .cancelled) s t := by
  have hkeeps : Keeps (.resume .cancelled) s := Or.inr (Or.inr rfl)
  unfold interruptCancelled at h
  split at h
  case h_1 => cases h
  case h_2 => exact Option.some.inj h ▸ .append [] (appends_finish s _) hkeeps
  case h_3 => exact Option.some.inj h ▸ .append [] (appends_finish s _) hkeeps
  case h_4 =>
    obtain ⟨added, happ⟩ := appends_patchAndCheckpoint (a := .resume .cancelled) s .cancelled
    exact Option.some.inj h ▸ .append added happ hkeeps

theorem SnapshotOk.at_point {s : State} {p : Point} (h : SnapshotOk s) (hp : s.point = p) :
    SnapshotOk { s with point := p } := by
  subst hp
  exact h

theorem keeps {s : State} {p : Point} (hp : s.point = p) (hnone : p.inflight = []) : Keeps a s :=
  Or.inl (hp ▸ hnone)

theorem compact_eq (id : Nat) (s : Summary) (fallback : Bool) (reserve : Nat)
    (ms : List Message) : compact id s fallback reserve ms = ms ∨
      compact id s fallback reserve ms = replaceOld id s reserve ms := by
  unfold compact
  split
  · exact Or.inr rfl
  · split
    · exact Or.inl rfl
    · split
      · exact Or.inl rfl
      · exact Or.inr rfl

theorem effect_resume {cfg : Config} {s t : State} {answer : Answer} (hsnap : SnapshotOk s)
    (ht : resume cfg s answer = some t) : Effect (.resume answer) s t := by
  unfold resume at ht
  split at ht
  case h_1 => exact effect_interruptRaised ht
  case h_2 => exact effect_interruptCancelled ht
  case h_3 rest userMessage hp =>
    have htexts : s.point.inflight ++ s.pending = rest ++ s.pending := by rw [hp]; rfl
    refine Option.some.inj ht ▸ effect_injectLeftover [] (List.append_nil _).symm
      (.nil (Nat.le_refl _)) (by simp) htexts fun hnil => ?_
    rw [hp]
    exact hnil
  case h_4 hp =>
    exact Option.some.inj ht ▸ .append [] (.none rfl rfl rfl rfl trivial) (keeps hp rfl)
  case h_5 hp => exact Option.some.inj ht ▸ effect_nextIteration cfg (by rw [hp]; rfl)
  case h_6 rest hp =>
    have htexts : s.point.inflight ++ s.pending = rest ++ s.pending := by rw [hp]; rfl
    refine Option.some.inj ht ▸ effect_steer rfl rfl htexts fun hnil => ?_
    rw [hp]
    exact hnil
  case h_7 snapshotLen paths hp =>
    obtain rfl : snapshotLen = s.history.length := hsnap.at_point hp
    simp only [reattachConcurrentMessages_length, Option.some.injEq] at ht
    subst ht
    exact .archive (sameShape_checkAndCompact _ _ _ _) (Nat.le_refl _) rfl rfl (keeps hp rfl) rfl
  case h_8 snapshotLen summary shouldCompact hp =>
    obtain rfl : snapshotLen = s.history.length := hsnap.at_point hp
    simp only [reattachConcurrentMessages_length] at ht
    have hthen : ∃ added, Appends (.resume (.summarized summary shouldCompact))
        { s with
          history := summarizeAndArchive s.nextId summary s.history
          nextId := s.nextId + 1 } t added := by
      split at ht
      · exact ⟨[], Option.some.inj ht ▸ .none rfl rfl rfl rfl rfl⟩
      · exact Option.some.inj ht ▸ appends_afterCompaction cfg _
    obtain ⟨added, happ⟩ := hthen
    cases summary with
    | none => exact .append added (happ.of_eq rfl (Nat.le_succ _) rfl) (keeps hp rfl)
    | some summary =>
      by_cases hfew : (nonSystemMessages s.history).length ≤ recentKeepCount
      · simp only [summarizeAndArchive, summarizeArchive, if_pos hfew] at happ
        exact .append added (happ.of_eq rfl (Nat.le_succ _) rfl) (keeps hp rfl)
      · simp only [summarizeAndArchive, summarizeArchive, if_neg hfew] at happ
        exact .summarise summary recentKeepCount added (by rw [hp]; rfl) happ (keeps hp rfl)
  case h_9 snapshotLen summary fallback hp =>
    obtain rfl : snapshotLen = s.history.length := hsnap.at_point hp
    simp only [reattachConcurrentMessages_length] at ht
    obtain ⟨added, happ⟩ : ∃ added, Appends (.resume (.compactedAll summary fallback))
        { s with
          history := compact s.nextId summary fallback cfg.reserveRecentCount s.history
          nextId := s.nextId + 1 } t added :=
      Option.some.inj ht ▸ appends_afterCompaction cfg _
    rcases compact_eq s.nextId summary fallback cfg.reserveRecentCount s.history with hc | hc
    · rw [hc] at happ
      exact .append added (happ.of_eq rfl (Nat.le_succ _) rfl) (keeps hp rfl)
    · rw [hc] at happ
      exact .summarise summary cfg.reserveRecentCount added (by rw [hp]; rfl) happ (keeps hp rfl)
  case h_10 hp =>
    exact Option.some.inj ht ▸ .append [] (.none rfl rfl rfl rfl trivial) (keeps hp rfl)
  case h_11 r hp =>
    refine Option.some.inj ht ▸ .append [assistantMessage s.nextId r] ?_ (keeps hp rfl)
    exact .one rfl rfl rfl (Or.inr (Or.inr ⟨_, r, rfl, rfl⟩)) rfl rfl trivial
  case h_12 assistant hp =>
    exact Option.some.inj ht ▸ effect_afterAssistant cfg assistant (by rw [hp]; rfl)
  case h_13 m hp => exact Option.some.inj ht ▸ .append [] (appends_finish s _) (keeps hp rfl)
  case h_14 turn results hp =>
    exact Option.some.inj ht ▸ .append [] (appends_askUser cfg s _ _) (keeps hp rfl)
  case h_15 turn call rest decision hp =>
    exact Option.some.inj ht ▸ .append [] (appends_askUser cfg s _ _) (keeps hp rfl)
  case h_16 turn signed outcomes hp =>
    dsimp only at ht
    split at ht
    · exact Option.some.inj ht ▸ .append [] (.none rfl rfl rfl rfl trivial) (keeps hp rfl)
    · cases ht
  case h_17 turn signed readResults outcomes hp =>
    dsimp only at ht
    split at ht
    · split at ht
      · rename_i g _
        obtain ⟨added, happ⟩ := appends_patchAndCheckpoint (a := .resume (.executed outcomes))
          { s with gate := g } .cancelled
        refine Option.some.inj ht ▸ .append added ?_ (keeps hp rfl)
        exact happ.of_eq rfl (Nat.le_refl _) rfl
      · rename_i g writeResults _
        obtain ⟨added, happ⟩ := appends_finishTurn (a := .resume (.executed outcomes)) cfg
          { s with gate := g } turn signed readResults writeResults
        refine Option.some.inj ht ▸ .append added ?_ (keeps hp rfl)
        exact happ.of_eq rfl (Nat.le_refl _) rfl
    · cases ht
  case h_18 hp =>
    split at ht
    · exact Option.some.inj ht ▸ .append [] (appends_raiseError s _) (keeps hp rfl)
    · exact Option.some.inj ht ▸ effect_nextIteration cfg (by rw [hp]; rfl)
  case h_19 f hp =>
    obtain ⟨added, happ⟩ := appends_patchAndCheckpoint (a := .resume .done) s (.raised f)
    exact Option.some.inj ht ▸ .append added happ (keeps hp rfl)
  case h_20 o hp => exact Option.some.inj ht ▸ .append [] (appends_finish s _) (keeps hp rfl)
  case h_21 => cases ht

theorem Effect.snapshot {s t : State} (h : Effect a s t) : SnapshotOk t := by
  cases h with
  | append added h _ => exact h.snapshot
  | deliver before id text _ _ _ _ _ _ hsnap => exact hsnap
  | archive _ _ _ _ _ hsnap => exact hsnap
  | summarise summary reserve added _ h _ => exact h.snapshot

/-- The loop acts, as opposed to its surroundings. -/
def Action.isLoop : Action → Bool
  | .run _ | .resume _ => true
  | _ => false

/-- What an action of the surroundings does to the queue. -/
def Action.enqueue (a : Action) (pending : List String) : List String :=
  match a with
  | .queueUserMessage text => push pending text
  | _ => pending

/-- The surroundings leave history and program point alone. -/
structure Outside (a : Action) (s t : State) : Prop where
  history : t.history = s.history
  ids : t.nextId = s.nextId
  point : t.point = s.point
  pending : t.pending = a.enqueue s.pending

theorem step_effect {cfg : Config} {s t : State} {a : Action} (hsnap : SnapshotOk s)
    (ht : (machine cfg).step s a = some t) :
    (a.isLoop = true ∧ Effect a s t) ∨ (a.isLoop = false ∧ Outside a s t) := by
  cases a with
  | queueUserMessage text => exact Or.inr ⟨rfl, Option.some.inj ht ▸ ⟨rfl, rfl, rfl, rfl⟩⟩
  | abort => exact Or.inr ⟨rfl, Option.some.inj ht ▸ ⟨rfl, rfl, rfl, rfl⟩⟩
  | setTools tools => exact Or.inr ⟨rfl, Option.some.inj ht ▸ ⟨rfl, rfl, rfl, rfl⟩⟩
  | setAutoApprove on => exact Or.inr ⟨rfl, Option.some.inj ht ▸ ⟨rfl, rfl, rfl, rfl⟩⟩
  | run userMessage =>
    simp only [machine, step] at ht
    split at ht
    · rename_i hidle
      exact Or.inl ⟨rfl, Option.some.inj ht ▸ effect_begin cfg hidle userMessage⟩
    · cases ht
  | resume answer => exact Or.inl ⟨rfl, effect_resume hsnap ht⟩

theorem snapshotOk_step {cfg : Config} {s t : State} {a : Action} (hsnap : SnapshotOk s)
    (ht : (machine cfg).step s a = some t) : SnapshotOk t := by
  rcases step_effect hsnap ht with ⟨-, heff⟩ | ⟨-, hout⟩
  · exact heff.snapshot
  · unfold SnapshotOk at hsnap ⊢
    rw [hout.point, hout.history]
    exact hsnap

end NeuralHub.AgentLoop
