/-
NeuralHub.AgentLoop.ToolPairing — are tool calls and tool results paired
when a run ends?

`Good` says what holds at each `await`. Up to the call of the model the
history is paired. From the assistant message with calls to the tool
message it ends in an unanswered message, and the ids of its calls are
the ids of the results made so far together with the ids of the calls
still on their way (`Turn.Accounts`). In the handler of an exception
either may be the case, and the patch settles it.

The handler of an exception has an `await` in front of the patch. A
cancellation delivered there leaves the unanswered message where it is,
and `tool_calls_stay_paired` says that this is the only way in which a
run can end with a history that is not paired.
-/
import NeuralHub.AgentLoop.RunTheorems
import NeuralHub.AgentLoop.ToolPhaseTheorems

namespace NeuralHub.AgentLoop

open NeuralHub.Lib

/-- The ids of the results there are, and of the calls that may run. -/
def Turn.ids (t : Turn) : List String :=
  resultIds t.skipped ++ (resultIds t.auth.rejectedResults ++ (signedIds t.auth.signedCalls ++
    (callIds t.approvals.approved ++ resultIds t.approvals.results)))

/-- Together with `rest` these are the calls of the turn. -/
def Turn.Accounts (t : Turn) (rest : List String) : Prop := (t.ids ++ rest).Perm (callIds t.calls)

/-- Once the calls are signed: results and signed calls are the calls of the turn. -/
def Turn.Signed (t : Turn) (signed : List SignedToolCall) : Prop :=
  (resultIds t.skipped ++ resultIds t.auth.rejectedResults ++ resultIds t.approvals.results ++
    signedIds signed).Perm (callIds t.calls)

/-- The read results answer the read-only calls, unless one of them is an exception. -/
def ReadDone (definitions : List ToolDefinition) (signed : List SignedToolCall)
    (readResults : List (Option ToolResult)) : Prop :=
  readResults.all (·.isSome) = true →
    ∀ c ∈ (partitionBySideEffect signed definitions).1,
      ∃ r ∈ readResults.filterMap id, r.toolCallId = c.toolCall.id

/-- What the history is like at each `await`. -/
def PointOk (s : State) : Prop :=
  match s.point with
  | .compactOldest snapshotLen | .archive snapshotLen | .compact snapshotLen =>
      HistoryPaired s.history ∧ snapshotLen = s.history.length
  | .assistantAppend m =>
      if m.toolCalls = [] then HistoryPaired s.history else AwaitsResults m.toolCalls s.history
  | .review t => AwaitsResults t.calls s.history ∧ t.approvals = {} ∧
      t.Accounts (callIds t.auth.pendingApproval)
  | .approval t call rest => AwaitsResults t.calls s.history ∧ t.Accounts (callIds (call :: rest))
  | .readBatch t signed => AwaitsResults t.calls s.history ∧ t.Signed signed
  | .writeBatch t signed readResults => AwaitsResults t.calls s.history ∧ t.Signed signed ∧
      ReadDone s.definitions signed readResults
  | .errorMetric _ => HistoryPaired s.history ∨ toolPairing.Pending s.history
  | _ => HistoryPaired s.history

structure Good (s : State) : Prop where
  point : PointOk s

/-! ## Ends of a run -/

theorem Good.raiseError {s : State} (h : HistoryPaired s.history ∨ toolPairing.Pending s.history)
    (f : Failure) : Good (s.raiseError f) := ⟨h⟩

theorem Good.finish {s : State} (h : HistoryPaired s.history) (o : RunOutcome) :
    Good (s.finish o) := ⟨h⟩

theorem Good.patchAndCheckpoint {s : State}
    (h : HistoryPaired s.history ∨ toolPairing.Pending s.history) (o : RunOutcome) :
    Good (s.patchAndCheckpoint o) := by
  have hpatched : HistoryPaired (patchOrphanToolCalls s.nextId s.history) :=
    historyPaired_patchOrphanToolCalls h
  unfold State.patchAndCheckpoint
  dsimp only
  split
  · rename_i hlen
    refine .finish ?_ o
    rcases h with h | h
    · exact h
    · obtain ⟨pre, m, heq, hopen, -⟩ := h
      obtain ⟨hrole, hcalls⟩ := Message.calling_iff.mp hopen
      rw [heq] at hlen
      simp [patchOrphanToolCalls, hrole, hcalls] at hlen
  · exact ⟨hpatched⟩

/-! ## Up to the call of the model -/

/-- Appending a message of the user or of the system. -/
theorem historyPaired_snoc {history : List Message} {m : Message} (h : HistoryPaired history)
    (hm : m.role = .user ∨ m.role = .system) : HistoryPaired (history ++ [m]) :=
  h.snoc (not_calling_of_role hm).1 (not_calling_of_role hm).2

theorem Good.steer {s : State} (h : HistoryPaired s.history) (texts : List String) :
    Good (s.steer texts) := by
  cases texts with
  | nil => exact ⟨h, rfl⟩
  | cons text rest => exact ⟨historyPaired_snoc h (Or.inl rfl)⟩

theorem Good.nextIteration {s : State} (cfg : Config) (h : HistoryPaired s.history) :
    Good (s.nextIteration cfg) := by
  unfold State.nextIteration
  split
  · refine .steer ?_ _
    exact h
  · exact .raiseError (Or.inl h) _

theorem Good.injectLeftover {s : State} (h : HistoryPaired s.history) (userMessage : String)
    (texts : List String) : Good (s.injectLeftover userMessage texts) := by
  cases texts <;> exact ⟨historyPaired_snoc h (Or.inl rfl)⟩

theorem Good.begin {s : State} (cfg : Config) (h : HistoryPaired s.history)
    (userMessage : String) : Good (s.begin cfg userMessage) := by
  unfold State.begin State.ensureSystemMessage
  dsimp only
  split
  · refine .injectLeftover ?_ userMessage _
    exact Pairing.Paired.other rfl rfl .nil
  · refine .injectLeftover ?_ userMessage _
    exact h

theorem Good.afterCompaction {s : State} (cfg : Config) (h : HistoryPaired s.history) :
    Good (s.afterCompaction cfg) := by
  unfold State.afterCompaction
  split
  · exact ⟨h⟩
  · exact ⟨historyPaired_snoc h (Or.inl rfl)⟩

/-! ## The calls of a response -/

theorem Good.startExecution {s : State} (cfg : Config) {t : Turn} 
    (h : AwaitsResults t.calls s.history) (ht : t.Accounts []) : Good (s.startExecution cfg t) := by
  unfold State.startExecution
  split
  · exact .raiseError (Or.inr h.pending) _
  · rename_i g forced hforce
    refine ⟨h, ?_⟩
    have hids : signedIds forced = callIds t.approvals.approved := SecurityGate.forceSign_ids hforce
    unfold Turn.Accounts Turn.ids at ht
    unfold Turn.Signed
    rw [List.perm_iff_count] at ht ⊢
    intro id
    have hid := ht id
    simp only [List.count_append, signedIds_append, hids, List.count_nil] at hid ⊢
    omega

theorem Turn.Accounts.decided {t : Turn} {call : ToolCall} {rest : List ToolCall}
    (ht : t.Accounts (callIds (call :: rest))) (aborted : Bool) (decision : Option Bool) :
    ({ t with approvals := waitOneApproval aborted decision call t.approvals } : Turn).Accounts
      (callIds rest) := by
  have hone := waitOneApproval_ids aborted decision call t.approvals
  unfold Turn.Accounts Turn.ids at ht ⊢
  unfold Approvals.ids at hone
  rw [human_waitOneApproval] at hone
  rw [List.perm_iff_count] at ht hone ⊢
  intro id
  have hid := ht id
  have hone := hone id
  simp only [callIds, List.map_cons, List.count_append, List.count_cons, List.count_nil] at hid hone ⊢
  omega

theorem Good.askUser {s : State} (cfg : Config) {t : Turn} {calls : List ToolCall}
    (h : AwaitsResults t.calls s.history)
    (ht : t.Accounts (callIds calls)) : Good (s.askUser cfg t calls) := by
  induction calls generalizing t with
  | nil => exact .startExecution cfg h ht
  | cons call rest ih =>
    unfold State.askUser
    split
    · exact ih h (ht.decided true none)
    · exact ⟨h, ht⟩

theorem Good.afterReview {s : State} (cfg : Config) {t : Turn} {a : Approvals}
    (h : AwaitsResults t.calls s.history)
    (hnone : t.approvals = {}) (ht : t.Accounts (callIds t.auth.pendingApproval))
    (ha : a.ids.Perm (callIds t.auth.pendingApproval)) : Good (s.afterReview cfg t a) := by
  refine .askUser cfg h ?_
  unfold Turn.Accounts Turn.ids at ht ⊢
  rw [hnone] at ht
  unfold Approvals.ids at ha
  rw [List.perm_iff_count] at ht ha ⊢
  intro id
  have hid := ht id
  have haid := ha id
  simp only [List.count_append, callIds_nil, resultIds_nil, List.count_nil] at hid haid ⊢
  omega

theorem Good.startTurn {s : State} (cfg : Config) {calls : List ToolCall}
    (h : AwaitsResults calls s.history) :
    Good (s.startTurn cfg calls) := by
  have hsplit := s.recovery.splitRepeated_ids cfg.describe calls
  unfold State.startTurn
  dsimp only
  split
  · exact .raiseError (Or.inr h.pending) _
  · rename_i g auth hauth
    have hids := SecurityGate.authorize_ids hauth
    have ht : (⟨calls, (s.recovery.splitRepeated cfg.describe calls).2, auth, {}⟩ : Turn).Accounts
        (callIds auth.pendingApproval) := by
      unfold Turn.Accounts Turn.ids
      unfold SecurityGate.authorizedIds at hids
      rw [List.perm_iff_count] at hsplit hids ⊢
      intro id
      have h₁ := hsplit id
      have h₂ := hids id
      simp only [List.count_append, callIds_nil, resultIds_nil, List.count_nil] at h₁ h₂ ⊢
      omega
    split
    · rename_i hnone
      rw [hnone] at ht
      exact .startExecution cfg h ht
    · split
      · exact ⟨h, rfl, ht⟩
      · refine .afterReview cfg h rfl ht ?_
        simp [Approvals.ids]

theorem Good.afterAssistant {s : State} (cfg : Config) {m : Message} 
    (h : if m.toolCalls = [] then HistoryPaired s.history
      else AwaitsResults m.toolCalls s.history) : Good (s.afterAssistant cfg m) := by
  unfold State.afterAssistant
  split
  · rename_i hnone
    rw [if_pos hnone] at h
    split
    · exact .nextIteration cfg h
    · exact ⟨h⟩
  · rename_i hcalls
    rw [if_neg hcalls] at h
    exact .startTurn cfg h

theorem Good.finishTurn {s : State} (cfg : Config) {t : Turn} {signed : List SignedToolCall}
    {readResults : List (Option ToolResult)} {writeResults : List ToolResult}
    (h : AwaitsResults t.calls s.history) (ht : t.Signed signed)
    (hread : ReadDone s.definitions signed readResults)
    (hwrite : ∀ c ∈ (partitionBySideEffect signed s.definitions).2,
      ∃ r ∈ writeResults, r.toolCallId = c.toolCall.id) :
    Good (s.finishTurn cfg t signed readResults writeResults) := by
  unfold State.finishTurn
  split
  · exact .raiseError (Or.inr h.pending) _
  · rename_i signedResults hmerge
    have hall : readResults.all (·.isSome) = true := by
      by_contra hno
      rw [mergeResults, if_neg hno] at hmerge
      cases hmerge
    have hids : resultIds signedResults = signedIds signed := by
      refine mergeResults_ids hmerge fun c hc => ?_
      rcases mem_partitionBySideEffect hc with hro | hw
      · obtain ⟨r, hr, hid⟩ := hread hall c hro
        exact ⟨r, List.mem_append_left _ hr, hid⟩
      · obtain ⟨r, hr, hid⟩ := hwrite c hw
        exact ⟨r, List.mem_append_right _ hr, hid⟩
    refine ⟨h.answered rfl ?_⟩
    simp only [Message.tool, ToolFailureRecoveryTracker.resultIds_annotate, resultIds_append, hids]
    exact ht

/-! ## Steps -/

theorem Good.at_point {s : State} {p : Point} (h : Good s) (hp : s.point = p) :
    PointOk { s with point := p } := by
  subst hp
  exact h.point

/-- At every `await` the handlers can mend the history. -/
theorem Good.mendable {s : State} (h : Good s) :
    HistoryPaired s.history ∨ toolPairing.Pending s.history := by
  have hpoint := h.point
  unfold PointOk at hpoint
  split at hpoint
  case h_4 m _ =>
    split at hpoint
    · exact Or.inl hpoint
    · exact Or.inr hpoint.pending
  case h_9 => exact hpoint
  case h_10 => exact Or.inl hpoint
  all_goals first
    | exact Or.inl hpoint.1
    | exact Or.inr hpoint.1.pending

/-- The loop is not cancelled in the handler of an exception while the
last message is unanswered. -/
def handlerUndisturbed (s : State) (a : Action) : Bool :=
  match s.point, a with
  | .errorMetric _, .resume .raised | .errorMetric _, .resume .cancelled =>
      !s.history.getLast?.any Message.calling
  | _, _ => true

/-- A summary is made of a history whose pairs do not read as summaries. -/
def summarisesPlain (s : State) (a : Action) : Prop :=
  summarises s.point a = true → PairsPlain s.history

instance (s : State) (a : Action) : Decidable (summarisesPlain s a) :=
  inferInstanceAs (Decidable (summarises s.point a = true → PairsPlain s.history))

theorem historyPaired_of_not_calling {history : List Message}
    (h : HistoryPaired history ∨ toolPairing.Pending history)
    (hlast : history.getLast?.any Message.calling = false) : HistoryPaired history := by
  rcases h with h | ⟨pre, m, rfl, hopen, -⟩
  · exact h
  · have hcall : m.calling = true := hopen
    simp [hcall] at hlast

theorem Good.interruptRaised {cfg : Config} {s t : State} (h : Good s)
    (hu : handlerUndisturbed s (.resume .raised) = true)
    (ht : AgentLoop.interruptRaised cfg s = some t) : Good t := by
  have hcompacting : ∀ snapshotLen, s.point = .compactOldest snapshotLen ∨
      s.point = .archive snapshotLen ∨ s.point = .compact snapshotLen →
      HistoryPaired s.history := by
    rintro snapshotLen (hp | hp | hp) <;>
    · have hpoint := h.point
      rw [PointOk, hp] at hpoint
      exact hpoint.1
  unfold AgentLoop.interruptRaised at ht
  split at ht
  case h_1 => cases ht
  case h_2 n hp => exact Option.some.inj ht ▸ .afterCompaction cfg (hcompacting n (by simp [hp]))
  case h_3 n hp => exact Option.some.inj ht ▸ .afterCompaction cfg (hcompacting n (by simp [hp]))
  case h_4 n hp => exact Option.some.inj ht ▸ .afterCompaction cfg (hcompacting n (by simp [hp]))
  case h_5 f hp =>
    have hlast : s.history.getLast?.any Message.calling = false := by
      simpa [handlerUndisturbed, hp] using hu
    exact Option.some.inj ht ▸ .finish (historyPaired_of_not_calling h.mendable hlast) _
  case h_6 o hp =>
    have hpoint : HistoryPaired s.history := by
      have hpoint := h.point
      rwa [PointOk, hp] at hpoint
    exact Option.some.inj ht ▸ .finish hpoint _
  case h_7 => exact Option.some.inj ht ▸ .raiseError h.mendable _

theorem Good.interruptCancelled {s t : State} (h : Good s)
    (hu : handlerUndisturbed s (.resume .cancelled) = true)
    (ht : AgentLoop.interruptCancelled s = some t) : Good t := by
  unfold AgentLoop.interruptCancelled at ht
  split at ht
  case h_1 => cases ht
  case h_2 f hp =>
    have hlast : s.history.getLast?.any Message.calling = false := by
      simpa [handlerUndisturbed, hp] using hu
    exact Option.some.inj ht ▸ .finish (historyPaired_of_not_calling h.mendable hlast) _
  case h_3 o hp =>
    have hpoint : HistoryPaired s.history := by
      have hpoint := h.point
      rwa [PointOk, hp] at hpoint
    exact Option.some.inj ht ▸ .finish hpoint _
  case h_4 => exact Option.some.inj ht ▸ .patchAndCheckpoint h.mendable _

theorem historyPaired_summarizeAndArchive {ms : List Message} (h : HistoryPaired ms)
    (hp : PairsPlain ms) (id : Nat) (summary : Option Summary) :
    HistoryPaired (summarizeAndArchive id summary ms) := by
  unfold summarizeAndArchive summarizeArchive
  split
  · exact h
  · split
    · exact h
    · exact historyPaired_replaceOld h hp id _ _

theorem historyPaired_compact {ms : List Message} (h : HistoryPaired ms) (hp : PairsPlain ms)
    (id : Nat) (s : Summary) (fallback : Bool) (reserve : Nat) :
    HistoryPaired (compact id s fallback reserve ms) := by
  have hreplace := historyPaired_replaceOld h hp id s reserve
  unfold compact
  split
  · exact hreplace
  · split
    · exact h
    · split
      · exact h
      · exact hreplace

/-- The assistant message is appended: paired without calls, and waiting for results with them. -/
theorem Good.respond {s : State} (h : HistoryPaired s.history) (r : LLMResponse) :
    Good (s.append (assistantMessage s.nextId r)
      (.assistantAppend (assistantMessage s.nextId r))) := by
  constructor
  show if (assistantMessage s.nextId r).toolCalls = [] then _ else _
  split
  · rename_i hnone
    refine HistoryPaired.snoc h ?_ rfl
    simp [Message.calling, hnone]
  · rename_i hcalls
    exact HistoryPaired.awaits h rfl hcalls

theorem Good.resume {cfg : Config} {s t : State} {answer : Answer} (h : Good s)
    (hu : handlerUndisturbed s (.resume answer) = true)
    (hplain : summarisesPlain s (.resume answer)) (ht : AgentLoop.resume cfg s answer = some t) :
    Good t := by
  unfold AgentLoop.resume at ht
  split at ht
  case h_1 => exact h.interruptRaised hu ht
  case h_2 => exact h.interruptCancelled hu ht
  case h_3 rest userMessage hp =>
    have hpaired : HistoryPaired s.history := h.at_point hp
    exact Option.some.inj ht ▸ .injectLeftover hpaired _ _
  case h_4 hp =>
    have hpaired : HistoryPaired s.history := h.at_point hp
    exact Option.some.inj ht ▸ ⟨hpaired⟩
  case h_5 hp =>
    have hpaired : HistoryPaired s.history := h.at_point hp
    exact Option.some.inj ht ▸ .nextIteration cfg hpaired
  case h_6 rest hp =>
    have hpaired : HistoryPaired s.history := h.at_point hp
    exact Option.some.inj ht ▸ .steer hpaired _
  case h_7 snapshotLen paths hp =>
    obtain ⟨hpaired, rfl⟩ : HistoryPaired s.history ∧ snapshotLen = s.history.length :=
      h.at_point hp
    simp only [reattachConcurrentMessages_length, Option.some.injEq] at ht
    subst ht
    have hshape := sameShape_checkAndCompact cfg.archive
      (s.definitions.any (·.name == "read_history")) paths s.history
    exact ⟨hpaired.of_sameShape hshape, rfl⟩
  case h_8 snapshotLen summary shouldCompact hp =>
    obtain ⟨hpaired, rfl⟩ : HistoryPaired s.history ∧ snapshotLen = s.history.length :=
      h.at_point hp
    simp only [reattachConcurrentMessages_length] at ht
    have hkept : HistoryPaired (summarizeAndArchive s.nextId summary s.history) := by
      cases summary with
      | none => exact hpaired
      | some summary =>
        have hp : PairsPlain s.history := hplain (by rw [hp]; rfl)
        exact historyPaired_summarizeAndArchive hpaired hp s.nextId (some summary)
    split at ht
    · exact Option.some.inj ht ▸ ⟨hkept, rfl⟩
    · refine Option.some.inj ht ▸ .afterCompaction cfg ?_
      exact hkept
  case h_9 snapshotLen summary fallback hp =>
    obtain ⟨hpaired, rfl⟩ : HistoryPaired s.history ∧ snapshotLen = s.history.length :=
      h.at_point hp
    simp only [reattachConcurrentMessages_length] at ht
    have hp : PairsPlain s.history := hplain (by rw [hp]; rfl)
    have hkept := historyPaired_compact hpaired hp s.nextId summary fallback cfg.reserveRecentCount
    refine Option.some.inj ht ▸ .afterCompaction cfg ?_
    exact hkept
  case h_10 hp =>
    have hpaired : HistoryPaired s.history := h.at_point hp
    exact Option.some.inj ht ▸ ⟨hpaired⟩
  case h_11 r hp =>
    have hpaired : HistoryPaired s.history := h.at_point hp
    exact Option.some.inj ht ▸ .respond hpaired r
  case h_12 assistant hp =>
    exact Option.some.inj ht ▸ .afterAssistant cfg (h.at_point hp)
  case h_13 m hp =>
    have hpaired : HistoryPaired s.history := h.at_point hp
    exact Option.some.inj ht ▸ .finish hpaired _
  case h_14 turn results hp =>
    obtain ⟨hawaits, hnone, haccounts⟩ : AwaitsResults turn.calls s.history ∧
        turn.approvals = {} ∧ turn.Accounts (callIds turn.auth.pendingApproval) := h.at_point hp
    have hids := reviewToolApprovals_ids turn.auth.pendingApproval results
    exact Option.some.inj ht ▸ .afterReview cfg hawaits hnone haccounts hids
  case h_15 turn call rest decision hp =>
    obtain ⟨hawaits, haccounts⟩ : AwaitsResults turn.calls s.history ∧
        turn.Accounts (callIds (call :: rest)) := h.at_point hp
    have hdecided := haccounts.decided false decision
    exact Option.some.inj ht ▸ .askUser cfg hawaits hdecided
  case h_16 turn signed outcomes hp =>
    obtain ⟨hawaits, hsigned⟩ : AwaitsResults turn.calls s.history ∧ turn.Signed signed :=
      h.at_point hp
    dsimp only at ht
    split at ht
    · rename_i hlen
      exact Option.some.inj ht ▸ ⟨hawaits, hsigned, executeSignedBatch_answers hlen⟩
    · cases ht
  case h_17 turn signed readResults outcomes hp =>
    obtain ⟨hawaits, hsigned, hread⟩ : AwaitsResults turn.calls s.history ∧
        turn.Signed signed ∧ ReadDone s.definitions signed readResults := h.at_point hp
    dsimp only at ht
    split at ht
    · rename_i hlen
      split at ht
      · obtain rfl := Option.some.inj ht
        refine .patchAndCheckpoint (Or.inr ?_) _
        exact hawaits.pending
      · rename_i writeResults hserial
        have hwrite := executeSignedSerial_answers hlen hserial
        exact Option.some.inj ht ▸ .finishTurn cfg hawaits hsigned hread hwrite
    · cases ht
  case h_18 hp =>
    have hpaired : HistoryPaired s.history := h.at_point hp
    split at ht
    · exact Option.some.inj ht ▸ .raiseError (Or.inl hpaired) _
    · exact Option.some.inj ht ▸ .nextIteration cfg hpaired
  case h_19 f hp =>
    exact Option.some.inj ht ▸ .patchAndCheckpoint h.mendable _
  case h_20 o hp =>
    have hpaired : HistoryPaired s.history := h.at_point hp
    exact Option.some.inj ht ▸ .finish hpaired _
  case h_21 => cases ht

theorem Good.historyPaired_of_idle {s : State} (h : Good s) (hidle : s.point.isIdle = true) :
    HistoryPaired s.history := by
  obtain ⟨last, hp⟩ := isIdle_iff.mp hidle
  exact h.at_point hp

theorem Good.of_idle {s : State} (hidle : s.point.isIdle = true) (h : HistoryPaired s.history) :
    Good s := by
  obtain ⟨last, hpoint⟩ := isIdle_iff.mp hidle
  constructor
  rw [PointOk, hpoint]
  exact h

theorem Good.step {cfg : Config} {s t : State} {a : Action} (h : Good s)
    (hu : handlerUndisturbed s a = true) (hplain : summarisesPlain s a)
    (ht : (machine cfg).step s a = some t) : Good t := by
  cases a with
  | queueUserMessage text => exact Option.some.inj ht ▸ ⟨h.point⟩
  | abort => exact Option.some.inj ht ▸ ⟨h.point⟩
  | setTools tools => exact Option.some.inj ht ▸ ⟨h.point⟩
  | setAutoApprove on => exact Option.some.inj ht ▸ ⟨h.point⟩
  | run userMessage =>
    simp only [machine, AgentLoop.step] at ht
    split at ht
    · rename_i hidle
      exact Option.some.inj ht ▸ .begin cfg (h.historyPaired_of_idle hidle) _
    · cases ht
  | resume answer => exact h.resume hu hplain ht

/-! ## Runs -/

/-- Without a further run an idle loop stays idle, with the history it has. -/
theorem run_of_idle {cfg : Config} {s t : State} {acts : List Action}
    (hidle : s.point.isIdle = true) (hone : ∀ m, Action.run m ∉ acts)
    (hrun : (machine cfg).run s acts = some t) : t.history = s.history := by
  induction acts generalizing s with
  | nil =>
    obtain rfl := Option.some.inj hrun
    rfl
  | cons a acts ih =>
    obtain ⟨u, hu, hrest⟩ := ((machine cfg).run_cons_eq_some).mp hrun
    have hkeep : u.point = s.point ∧ u.history = s.history := by
      cases a with
      | queueUserMessage text => exact Option.some.inj hu ▸ ⟨rfl, rfl⟩
      | abort => exact Option.some.inj hu ▸ ⟨rfl, rfl⟩
      | setTools tools => exact Option.some.inj hu ▸ ⟨rfl, rfl⟩
      | setAutoApprove on => exact Option.some.inj hu ▸ ⟨rfl, rfl⟩
      | run m => exact absurd List.mem_cons_self (hone m)
      | resume answer =>
        obtain ⟨last, hp⟩ := isIdle_iff.mp hidle
        have hnone : AgentLoop.resume cfg s answer = none := by
          cases answer <;> simp [AgentLoop.resume, interruptRaised, interruptCancelled, hp]
        change AgentLoop.resume cfg s answer = some u at hu
        rw [hnone] at hu
        cases hu
    have hrest := ih (hkeep.1 ▸ hidle) (fun m hm => hone m (List.mem_cons_of_mem a hm)) hrest
    rw [hrest, hkeep.2]

theorem finish_of_last_calling {s : State} {o : RunOutcome}
    (hlast : s.history.getLast?.any Message.calling = true) :
    (s.finish o).point.isIdle = true ∧
      ∃ pre m, (s.finish o).history = pre ++ [m] ∧ m.calling = true := by
  cases hm : s.history.getLast? with
  | none => simp [hm] at hlast
  | some m =>
    obtain ⟨pre, hpre⟩ := List.getLast?_eq_some_iff.mp hm
    rw [hm] at hlast
    exact ⟨rfl, pre, m, hpre, hlast⟩

/-- A disturbed handler ends the run with the unanswered message last. -/
theorem disturbed_step {cfg : Config} {s t : State} {a : Action}
    (hu : handlerUndisturbed s a = false) (ht : (machine cfg).step s a = some t) :
    t.point.isIdle = true ∧ ∃ pre m, t.history = pre ++ [m] ∧ m.calling = true := by
  unfold handlerUndisturbed at hu
  split at hu
  · rename_i f hp
    rw [Bool.not_eq_false'] at hu
    have hfinish : s.finish (.raised .other) = t := by
      simpa [machine, AgentLoop.step, AgentLoop.resume, interruptRaised, hp] using ht
    exact hfinish ▸ finish_of_last_calling hu
  · rename_i f hp
    rw [Bool.not_eq_false'] at hu
    have hfinish : s.finish .cancelled = t := by
      simpa [machine, AgentLoop.step, AgentLoop.resume, interruptCancelled, hp] using ht
    exact hfinish ▸ finish_of_last_calling hu
  · cases hu

/-! ## Messages that do not read as summaries -/

/-- A response with tool calls does not read as a summary. -/
def plainResponse (a : Action) : Bool :=
  match a with
  | .resume (.responded r) => r.toolCalls.isEmpty || !isSummaryMessage (assistantMessage 0 r)
  | _ => true

theorem OwnMessage.plain {a : Action} {m : Message} (h : OwnMessage a m)
    (hr : plainResponse a = true) : PairsPlain [m] := by
  rcases h with ⟨hcall, htool⟩ | ⟨id, results, rfl⟩ | ⟨id, r, rfl, rfl⟩
  · exact pairsPlain_singleton hcall htool
  · intro m hm _
    rw [List.mem_singleton.mp hm]
    exact ⟨rfl, fun _ => rfl⟩
  · intro m hm hpair
    rw [List.mem_singleton] at hm
    subst hm
    have hnotool : (assistantMessage id r).isTool = false := rfl
    rw [hnotool] at hpair ⊢
    have hcall : (assistantMessage id r).calling = true := by simpa using hpair
    have hcalls : r.toolCalls ≠ [] := (Message.calling_iff.mp hcall).2
    have hsame : isSummaryMessage (assistantMessage id r) =
        isSummaryMessage (assistantMessage 0 r) := rfl
    rw [hsame]
    exact ⟨by simpa [plainResponse, hcalls] using hr, by simp⟩

theorem PairsPlain.appends {a : Action} {s t : State} {added : List Message}
    (h : PairsPlain s.history) (ht : Appends a s t added) (hr : plainResponse a = true) :
    PairsPlain t.history := by
  rw [ht.history]
  refine h.append fun m hm => ?_
  exact (ht.own m hm).plain hr m List.mem_cons_self

theorem PairsPlain.effect {a : Action} {s t : State} (h : PairsPlain s.history)
    (heff : Effect a s t) (hr : plainResponse a = true) : PairsPlain t.history := by
  cases heff with
  | append added happ _ => exact h.appends happ hr
  | deliver before id text hhistory _ _ hsystem _ _ _ =>
    rw [hhistory]
    refine h.append (.append ?_ (pairsPlain_singleton rfl rfl))
    intro m hm hpair
    obtain ⟨hcall, htool⟩ := not_calling_of_role (Or.inr (hsystem m hm))
    rw [hcall, htool] at hpair
    simp at hpair
  | archive hshape _ _ _ _ _ => exact h.of_sameShape hshape
  | summarise summary reserve added _ happ _ =>
    refine PairsPlain.appends ?_ happ hr
    exact pairsPlain_replaceOld h _ _ _

/-- It is enough to ask this of the history at the start and of the responses. -/
theorem meets_summarisesPlain {cfg : Config} {s : State} {acts : List Action}
    (hidle : s.point.isIdle = true) (hplain : PairsPlain s.history)
    (hresp : ∀ a ∈ acts, plainResponse a = true) : (machine cfg).Meets summarisesPlain s acts := by
  refine (machine cfg).meets_of_invariant
    (I := fun s => SnapshotOk s ∧ PairsPlain s.history)
    (D := fun _ a => plainResponse a = true) ?_ ?_ ⟨.of_idle hidle, hplain⟩ ?_
  · rintro s a t ⟨hsnap, hp⟩ hr ht
    refine ⟨snapshotOk_step hsnap ht, ?_⟩
    rcases step_effect hsnap ht with ⟨-, heff⟩ | ⟨-, hout⟩
    · exact hp.effect heff hr
    · rw [hout.history]
      exact hp
  · rintro s a ⟨-, hp⟩ _ _
    exact hp
  · exact (machine cfg).meets_of_forall_mem fun a ha _ => hresp a ha

/-! ## The end of a run -/

/-- A run of a loop with a paired history ends. Whatever the model, the
tools, the reviewer, the user and the summaries did and wherever the run
was interrupted, the history is paired again if and only if the handler
of an exception was not cut off in front of its patch. The one thing
asked of the messages is that no pair reads as a summary when one is made. -/
theorem tool_calls_stay_paired (cfg : Config) {s s' : State} {userMessage : String}
    {acts : List Action} (hidle : s.point.isIdle = true) (hpaired : HistoryPaired s.history)
    (hone : ∀ m, Action.run m ∉ acts)
    (hplain : (machine cfg).Meets summarisesPlain s (.run userMessage :: acts))
    (hrun : (machine cfg).run s (.run userMessage :: acts) = some s')
    (hend : s'.point.isIdle = true) :
    HistoryPaired s'.history ↔
      (machine cfg).Meets (fun s a => handlerUndisturbed s a = true) s
        (.run userMessage :: acts) := by
  constructor
  · intro hfinal
    rw [(machine cfg).meets_iff_forall_step hrun]
    intro pre a post u v heq hu hv
    by_contra hbad
    rw [Bool.not_eq_true] at hbad
    obtain ⟨hvidle, before, m, hlast, hcall⟩ := disturbed_step hbad hv
    have hpost : (machine cfg).run v post = some s' := by
      rw [heq] at hrun
      obtain ⟨u', hu', hrest⟩ := ((machine cfg).run_append_eq_some).mp hrun
      obtain rfl := Option.some.inj (hu.symm.trans hu')
      obtain ⟨v', hv', hrest⟩ := ((machine cfg).run_cons_eq_some).mp hrest
      obtain rfl := Option.some.inj (hv.symm.trans hv')
      exact hrest
    have hpostone : ∀ m, Action.run m ∉ post := by
      intro m hm
      cases pre with
      | nil =>
        obtain ⟨-, rfl⟩ := List.cons.inj heq
        exact hone m hm
      | cons x pre =>
        obtain ⟨-, rfl⟩ := List.cons.inj heq
        exact hone m (List.mem_append_right _ (List.mem_cons_of_mem _ hm))
    rw [run_of_idle hvidle hpostone hpost, hlast] at hfinal
    have hno : m.calling = false := Pairing.Paired.last_not_opens hfinal
    rw [hcall] at hno
    cases hno
  · intro hmeets
    have hgood : Good s' := by
      refine (machine cfg).run_invariant_of_meets ?_ (.of_idle hidle hpaired)
        ((machine cfg).meets_and.mpr ⟨hmeets, hplain⟩) hrun
      intro s a t hs hC hstep
      exact hs.step hC.1 hC.2 hstep
    exact hgood.historyPaired_of_idle hend

/-! ## A cancelled handler -/

/-- A new loop with one side-effect-free tool. -/
def readingLoop : State where
  gate := { policy := {} }
  recovery := { threshold := 5 }
  tools := [{ name := "Read", sideEffect := false }]

/-- The model calls the tool, the tool ends with a `CancelledError` of its
own, and merging the results fails. -/
def toMergeFailure : List Answer :=
  [.done, .done, .compacted [], .summarized none false,
    .responded { content := "", toolCalls := [⟨"c1", "Read", "{}"⟩] }, .done,
    .executed [.cancelled], .executed []]

/-- A run in which nothing happens but these answers. -/
abbrev oneRun (userMessage : String) (answers : List Answer) : List Action :=
  .run userMessage :: answers.map .resume

theorem run_notMem_map_resume (answers : List Answer) (m : String) :
    Action.run m ∉ answers.map Action.resume := by simp

/-- How a run of the reading loop ends: idle or not, and its history. -/
def endOf (answers : List Answer) : Option (Bool × List Message) :=
  ((machine plainConfig).run readingLoop (oneRun "go" answers)).map
    fun s => (s.point.isIdle, s.history)

/-- The assistant message with the one call. -/
def callingMessage : Message := assistantMessage 2 ⟨"", [⟨"c1", "Read", "{}"⟩], ""⟩

/-- A handler that may finish repairs the history. -/
theorem tool_calls_stay_paired_after_failure :
    ∃ s', (machine plainConfig).run readingLoop
        (oneRun "go" (toMergeFailure ++ [.done, .done])) = some s' ∧
      HistoryPaired s'.history := by
  have hend : endOf (toMergeFailure ++ [.done, .done]) = some (true,
      [.user 0 "go", callingMessage, .tool 3 (buildOrphanToolResults callingMessage)]) := by decide
  obtain ⟨s', hrun, hs'⟩ := Option.map_eq_some_iff.mp hend
  refine ⟨s', hrun, ?_⟩
  exact (tool_calls_stay_paired plainConfig (s := readingLoop) rfl .nil (run_notMem_map_resume _)
    (by decide) hrun (congrArg Prod.fst hs')).mpr (by decide)

/-- A run that is cancelled while the handler of the failed merge reports its
duration leaves the call unanswered. -/
theorem orphan_left_by_cancelled_handler :
    ¬ ∀ (cfg : Config) (s s' : State) (userMessage : String) (acts : List Action),
      s.point.isIdle = true → HistoryPaired s.history → (∀ m, Action.run m ∉ acts) →
      (∀ r, Action.resume (.responded r) ∈ acts →
        (callIds r.toolCalls).Nodup ∧ isSummaryMessage (assistantMessage 0 r) = false) →
      (machine cfg).run s (.run userMessage :: acts) = some s' → s'.point.isIdle = true →
      HistoryPaired s'.history := by
  intro hclaim
  have hend : endOf (toMergeFailure ++ [.cancelled]) =
      some (true, [.user 0 "go"] ++ [callingMessage]) := by decide
  obtain ⟨s', hrun, hs'⟩ := Option.map_eq_some_iff.mp hend
  obtain ⟨hidle, hhistory⟩ := Prod.mk.inj hs'
  have hresp : ∀ r, Action.resume (.responded r) ∈
      (toMergeFailure ++ [Answer.cancelled]).map Action.resume →
      (callIds r.toolCalls).Nodup ∧ isSummaryMessage (assistantMessage 0 r) = false := by
    intro r hr
    simp only [toMergeFailure, List.mem_map, List.mem_append, List.mem_cons, List.not_mem_nil,
      or_false, Action.resume.injEq, exists_eq_right, reduceCtorEq, false_or,
      Answer.responded.injEq] at hr
    subst hr
    decide
  have hfinal := hclaim plainConfig readingLoop s' "go" _ rfl .nil (run_notMem_map_resume _) hresp
    hrun hidle
  rw [hhistory] at hfinal
  have hno : callingMessage.calling = false := Pairing.Paired.last_not_opens hfinal
  cases hno

end NeuralHub.AgentLoop
