/-
NeuralHub.AgentLoop.CallLimit — which calls of one response are signed.

`authorize` signs the calls that need no approval, as many as the policy
allows in one turn, and hands on the calls that need one; `force_sign`
signs those of them that are approved. Both kinds name registered tools
of the allow-list. The limit only counts the calls of the first kind
(`signedCalls_length`), so the approved ones can go beyond it:
`signed_calls_within_policy_iff`.
-/
import NeuralHub.AgentLoop.ToolPhaseTheorems

namespace NeuralHub.AgentLoop

open NeuralHub.Lib

variable {sign : Sign} {tools : List ToolDefinition} {g g' g'' : SecurityGate} {call : ToolCall}
  {calls : List ToolCall} {acc auth : AuthorizeResult}

/-! ## The approvals of one response -/

/-- What a call for the user meets: an abort in front of it, or a decision. -/
structure HumanAnswer where
  aborted : Bool
  decision : Option Bool

/-- `wait_tool_approvals` behind the review. -/
def waitToolApprovals (answers : Nat → HumanAnswer) (a : Approvals) : Approvals :=
  a.human.zipIdx.foldl
    (fun acc asked => waitOneApproval (answers asked.2).aborted (answers asked.2).decision asked.1 acc)
    { a with human := [] }

/-- What `run_agent_loop` does with `pending_approval`; `autoApprove` is the
user's `auto_approve_tools`. -/
def approveToolCalls (autoApprove : Bool) (reviews : List ReviewResult)
    (answers : Nat → HumanAnswer) (pending : List ToolCall) : Approvals :=
  waitToolApprovals answers
    (if autoApprove then reviewToolApprovals pending reviews else { human := pending })

theorem approved_waitOneApproval {aborted : Bool} {decision : Option Bool} {a : Approvals} :
    (waitOneApproval aborted decision call a).approved ⊆ a.approved ++ [call] := by
  unfold waitOneApproval
  split
  · exact List.subset_append_left _ _
  · split
    · exact List.Subset.refl _
    · exact List.subset_append_left _ _

theorem approved_foldl_waitOneApproval (answers : Nat → HumanAnswer)
    (asked : List (ToolCall × Nat)) (a : Approvals) :
    (asked.foldl (fun acc x => waitOneApproval (answers x.2).aborted (answers x.2).decision x.1 acc)
      a).approved ⊆ a.approved ++ asked.map (·.1) := by
  induction asked generalizing a with
  | nil => simp
  | cons x rest ih =>
    intro c hc
    have hmem := ih (waitOneApproval (answers x.2).aborted (answers x.2).decision x.1 a) hc
    rw [List.map_cons, ← List.singleton_append, ← List.append_assoc]
    rcases List.mem_append.mp hmem with hone | hrest
    · exact List.mem_append_left _ (approved_waitOneApproval hone)
    · exact List.mem_append_right _ hrest

theorem reviewed_subset (calls : List ToolCall) (reviews : List ReviewResult) :
    (reviewToolApprovals calls reviews).approved ⊆ calls ∧
      (reviewToolApprovals calls reviews).human ⊆ calls := by
  have hfold : ∀ (reviewed : List (ToolCall × ReviewResult)) (a : Approvals),
      (∀ x ∈ reviewed, x.1 ∈ calls) → a.approved ⊆ calls → a.human ⊆ calls →
        (reviewed.foldl Approvals.add a).approved ⊆ calls ∧
          (reviewed.foldl Approvals.add a).human ⊆ calls := by
    intro reviewed
    induction reviewed with
    | nil => exact fun a _ happroved hhuman => ⟨happroved, hhuman⟩
    | cons x rest ih =>
      intro a hmem happroved hhuman
      have hx : x.1 ∈ calls := hmem x List.mem_cons_self
      refine ih (a.add x) (fun y hy => hmem y (List.mem_cons_of_mem x hy)) ?_ ?_
      · unfold Approvals.add
        split <;> simp [happroved, hx]
      · unfold Approvals.add
        split <;> simp [hhuman, hx]
  refine hfold _ {} (fun x hx => ?_) (List.nil_subset _) (List.nil_subset _)
  exact (List.of_mem_zip hx).1

/-- Only calls that wait for an approval are approved. -/
theorem approved_subset (autoApprove : Bool) (reviews : List ReviewResult)
    (answers : Nat → HumanAnswer) (pending : List ToolCall) :
    (approveToolCalls autoApprove reviews answers pending).approved ⊆ pending := by
  have hreview : ∀ a : Approvals, a.approved ⊆ pending → a.human ⊆ pending →
      (waitToolApprovals answers a).approved ⊆ pending := by
    intro a happroved hhuman c hc
    rcases List.mem_append.mp (approved_foldl_waitOneApproval answers _ _ hc) with hmem | hmem
    · exact happroved hmem
    · rw [List.zipIdx_map_fst] at hmem
      exact hhuman hmem
  unfold approveToolCalls
  split
  · exact hreview _ (reviewed_subset pending reviews).1 (reviewed_subset pending reviews).2
  · exact hreview _ (List.nil_subset _) (List.Subset.refl _)

/-! ## What the policy permits -/

namespace SecurityGate

/-- The tool is registered, and the allow-list has it when there is one. -/
def permits (g : SecurityGate) (tools : List ToolDefinition) (call : ToolCall) : Bool :=
  (getTool tools call.name).isSome &&
    (g.policy.allowedTools.isEmpty || g.policy.allowedTools.contains call.name)

def needsApproval (tools : List ToolDefinition) (call : ToolCall) : Bool :=
  (getTool tools call.name).any (·.requiresApproval)

/-- The calls of a response that are signed without being asked for. -/
def plainCalls (g : SecurityGate) (tools : List ToolDefinition) (calls : List ToolCall) :
    List ToolCall :=
  calls.filter fun call => g.permits tools call && !needsApproval tools call

/-- The three ways of a call: it waits for an approval, it is rejected, or
it is signed. -/
theorem rejectReason_cases (g : SecurityGate) (tools : List ToolDefinition) (call : ToolCall)
    (signedCount : Nat) :
    ("requires_approval:".toList.isPrefixOf (g.rejectReason tools call signedCount).toList = true ∧
      g.permits tools call = true ∧ needsApproval tools call = true) ∨
    ("requires_approval:".toList.isPrefixOf (g.rejectReason tools call signedCount).toList = false ∧
      g.rejectReason tools call signedCount ≠ "" ∧
      (g.permits tools call = false ∨ g.policy.maxCallsPerTurn ≤ signedCount)) ∨
    (g.rejectReason tools call signedCount = "" ∧ g.permits tools call = true ∧
      needsApproval tools call = false ∧ signedCount < g.policy.maxCallsPerTurn) := by
  unfold rejectReason
  cases htool : getTool tools call.name with
  | none =>
    refine Or.inr (Or.inl ⟨?_, ?_, Or.inl ?_⟩)
    · simp [List.isPrefixOf]
    · simp
    · simp [permits, htool]
  | some tool =>
    dsimp only
    split
    · rename_i hallowed
      refine Or.inr (Or.inl ⟨?_, ?_, Or.inl ?_⟩)
      · simp [List.isPrefixOf]
      · simp
      · simp [permits, hallowed.1, hallowed.2]
    · rename_i hallowed
      have hpermits : g.permits tools call = true := by
        by_cases hempty : g.policy.allowedTools = []
        · simp [permits, htool, hempty]
        · have hmem : call.name ∈ g.policy.allowedTools := by
            by_contra hnot
            exact hallowed ⟨hempty, hnot⟩
          simp [permits, htool, hmem]
      split
      · rename_i hmax
        refine Or.inr (Or.inl ⟨?_, ?_, Or.inr hmax⟩)
        · simp [List.isPrefixOf]
        · simp
      · rename_i hmax
        split
        · rename_i happroval
          refine Or.inl ⟨?_, hpermits, by simp [needsApproval, htool, happroval]⟩
          simp [List.isPrefixOf]
        · rename_i happroval
          exact Or.inr (Or.inr ⟨rfl, hpermits, by simp [needsApproval, htool, happroval],
            Nat.lt_of_not_le hmax⟩)

/-- One call of the loop in `authorize`, by the three ways. -/
theorem authorizeFrom_cons (h : authorizeFrom sign tools g acc (call :: calls) = some (g', auth)) :
    (g.permits tools call = true ∧ needsApproval tools call = true ∧
      authorizeFrom sign tools g { acc with pendingApproval := acc.pendingApproval ++ [call] } calls =
        some (g', auth)) ∨
    ((g.permits tools call = false ∨ g.policy.maxCallsPerTurn ≤ acc.signedCalls.length) ∧
      ∃ reason, authorizeFrom sign tools g
        { acc with rejectedResults := acc.rejectedResults ++ [rejectedResult call reason] } calls =
          some (g', auth)) ∨
    (g.permits tools call = true ∧ needsApproval tools call = false ∧
      acc.signedCalls.length < g.policy.maxCallsPerTurn ∧
      ∃ sequence signed, signed.toolCall = call ∧ authorizeFrom sign tools { g with sequence }
        { acc with signedCalls := acc.signedCalls ++ [signed] } calls = some (g', auth)) := by
  rw [authorizeFrom] at h
  dsimp only at h
  rcases rejectReason_cases g tools call acc.signedCalls.length with
    ⟨hreason, hpermits, happroval⟩ | ⟨hreason, hne, hnot⟩ | ⟨hreason, hpermits, happroval, hmax⟩
  · rw [if_pos hreason] at h
    exact Or.inl ⟨hpermits, happroval, h⟩
  · rw [if_neg (by rw [hreason]; exact Bool.false_ne_true), if_pos hne] at h
    exact Or.inr (Or.inl ⟨hnot, _, h⟩)
  · rw [hreason, if_neg (by simp), if_neg (by simp)] at h
    obtain ⟨⟨g₁, signed⟩, hsign, hrest⟩ := Option.bind_eq_some_iff.mp h
    have hcall := toolCall_signNext hsign
    obtain ⟨signature, -, heq⟩ := Option.map_eq_some_iff.mp hsign
    obtain ⟨rfl, -⟩ := Prod.mk.inj heq
    exact Or.inr (Or.inr ⟨hpermits, happroval, hmax, _, signed, hcall, hrest⟩)

theorem authorizeFrom_permits (h : authorizeFrom sign tools g acc calls = some (g', auth))
    (hsigned : ∀ c ∈ acc.signedCalls, g.permits tools c.toolCall = true)
    (hpending : ∀ c ∈ acc.pendingApproval, g.permits tools c = true) :
    (∀ c ∈ auth.signedCalls, g.permits tools c.toolCall = true) ∧
      ∀ c ∈ auth.pendingApproval, g.permits tools c = true := by
  induction calls generalizing g acc with
  | nil =>
    obtain ⟨-, rfl⟩ := Prod.mk.inj (Option.some.inj h)
    exact ⟨hsigned, hpending⟩
  | cons call calls ih =>
    rcases authorizeFrom_cons h with ⟨hpermits, -, hrest⟩ | ⟨-, reason, hrest⟩ |
      ⟨hpermits, -, -, sequence, signed, rfl, hrest⟩
    · refine ih hrest hsigned fun c hc => ?_
      rcases List.mem_append.mp hc with hc | hc
      · exact hpending c hc
      · exact List.mem_singleton.mp hc ▸ hpermits
    · exact ih hrest hsigned hpending
    · have hsigned' : ∀ c ∈ acc.signedCalls ++ [signed], g.permits tools c.toolCall = true := by
        intro c hc
        rcases List.mem_append.mp hc with hc | hc
        · exact hsigned c hc
        · exact List.mem_singleton.mp hc ▸ hpermits
      have hboth := ih hrest hsigned' hpending
      exact hboth

/-- Plain calls are signed up to the limit. -/
theorem authorizeFrom_length (h : authorizeFrom sign tools g acc calls = some (g', auth))
    (hmax : acc.signedCalls.length ≤ g.policy.maxCallsPerTurn) :
    auth.signedCalls.length = min g.policy.maxCallsPerTurn
      (acc.signedCalls.length + (g.plainCalls tools calls).length) := by
  induction calls generalizing g acc with
  | nil =>
    obtain ⟨-, rfl⟩ := Prod.mk.inj (Option.some.inj h)
    simp only [plainCalls, List.filter_nil, List.length_nil, Nat.add_zero]
    omega
  | cons call calls ih =>
    rcases authorizeFrom_cons h with ⟨hpermits, happroval, hrest⟩ | ⟨hnot, reason, hrest⟩ |
      ⟨hpermits, happroval, hlt, sequence, signed, rfl, hrest⟩
    · have hplain : g.plainCalls tools (call :: calls) = g.plainCalls tools calls := by
        simp [plainCalls, happroval]
      have hlength := ih hrest hmax
      rw [hplain, hlength]
    · have hrest := ih hrest hmax
      rcases hnot with hnot | hfull
      · have hplain : g.plainCalls tools (call :: calls) = g.plainCalls tools calls := by
          simp [plainCalls, hnot]
        rw [hplain]
        exact hrest
      · -- the limit is reached, so the count does not matter any more
        have hall : acc.signedCalls.length = g.policy.maxCallsPerTurn := Nat.le_antisymm hmax hfull
        dsimp only at hrest
        omega
    · have hplain : (g.plainCalls tools (signed.toolCall :: calls)).length =
          (g.plainCalls tools calls).length + 1 := by
        simp [plainCalls, hpermits, happroval]
      have hsame : SecurityGate.plainCalls { g with sequence } tools calls =
          g.plainCalls tools calls := rfl
      have hmax' : (acc.signedCalls ++ [signed]).length ≤ g.policy.maxCallsPerTurn := by
        rw [List.length_append, List.length_singleton]
        exact hlt
      have hrest := ih hrest hmax'
      rw [hsame] at hrest
      simp only [List.length_append, List.length_singleton] at hrest
      rw [hplain, hrest]
      omega

theorem forceSign_toolCalls {signed : List SignedToolCall}
    (h : g.forceSign sign calls = some (g', signed)) : signed.map (·.toolCall) = calls := by
  induction calls generalizing g g' signed with
  | nil =>
    obtain ⟨-, rfl⟩ := Prod.mk.inj (Option.some.inj h)
    rfl
  | cons call calls ih =>
    obtain ⟨⟨g₁, c⟩, hsign, hrest⟩ := Option.bind_eq_some_iff.mp h
    obtain ⟨⟨g₂, rest⟩, hforce, heq⟩ := Option.map_eq_some_iff.mp hrest
    obtain ⟨-, rfl⟩ := Prod.mk.inj heq
    rw [List.map_cons, toolCall_signNext hsign, ih hforce]

/-- At most as many calls as a turn may have, and each is permitted. -/
def WithinPolicy (g : SecurityGate) (tools : List ToolDefinition) (signed : List SignedToolCall) :
    Prop :=
  signed.length ≤ g.policy.maxCallsPerTurn ∧ ∀ c ∈ signed, g.permits tools c.toolCall = true

end SecurityGate

/-! ## The limit -/

/-- **What is signed for a response stays within the policy** exactly when
no call is signed on an approval, or the approved calls and the plain ones
are no more than the limit together. -/
theorem signed_calls_within_policy_iff {autoApprove : Bool} {reviews : List ReviewResult}
    {answers : Nat → HumanAnswer} {forced : List SignedToolCall}
    (hauth : g.authorize sign tools calls = some (g', auth))
    (hforce : g'.forceSign sign
      (approveToolCalls autoApprove reviews answers auth.pendingApproval).approved =
        some (g'', forced)) :
    g.WithinPolicy tools (auth.signedCalls ++ forced) ↔
      (approveToolCalls autoApprove reviews answers auth.pendingApproval).approved = [] ∨
        (g.plainCalls tools calls).length +
          (approveToolCalls autoApprove reviews answers auth.pendingApproval).approved.length ≤
            g.policy.maxCallsPerTurn := by
  have hpermits := SecurityGate.authorizeFrom_permits hauth (by simp) (by simp)
  have hlength := SecurityGate.authorizeFrom_length hauth (Nat.zero_le _)
  have hforced := SecurityGate.forceSign_toolCalls hforce
  have happroved := approved_subset autoApprove reviews answers auth.pendingApproval
  generalize (approveToolCalls autoApprove reviews answers auth.pendingApproval).approved = approved
    at hforced happroved ⊢
  have hcount : forced.length = approved.length := by rw [← hforced, List.length_map]
  have hall : ∀ c ∈ auth.signedCalls ++ forced, g.permits tools c.toolCall = true := by
    intro c hc
    rcases List.mem_append.mp hc with hc | hc
    · exact hpermits.1 c hc
    · refine hpermits.2 c.toolCall (happroved ?_)
      exact hforced ▸ List.mem_map_of_mem hc
  have hnil : approved = [] ↔ approved.length = 0 := List.length_eq_zero_iff.symm
  rw [SecurityGate.WithinPolicy, and_iff_left hall, List.length_append, hcount, hlength, hnil,
    List.length_nil, Nat.zero_add]
  omega

/-! ## Two approved calls where a turn may have one -/

def oneCallGate : SecurityGate := { policy := { maxCallsPerTurn := 1 } }

def approvedTools : List ToolDefinition :=
  [{ name := "Read" }, { name := "Bash", requiresApproval := true }]

def readCall : ToolCall := { id := "r", name := "Read", arguments := "\x7b\x7d" }

def bashCalls : List ToolCall :=
  [{ id := "a", name := "Bash", arguments := "\x7b\x7d" },
    { id := "b", name := "Bash", arguments := "\x7b\x7d" }]

def signedWithNumber : Sign := fun call sequence =>
  some (call.name ++ "|" ++ call.arguments ++ "|" ++ toString sequence)

/-- The user approves everything he is asked for. -/
def allApproved : Nat → HumanAnswer := fun _ => { aborted := false, decision := some true }

/-- A plain call uses up the limit, and calls for an approval behind it are
rejected. -/
theorem signed_calls_within_policy_plain :
    ∃ g' g'' auth forced,
      oneCallGate.authorize signedWithNumber approvedTools (readCall :: bashCalls) =
        some (g', auth) ∧
      SecurityGate.forceSign signedWithNumber g'
        (approveToolCalls false [] allApproved auth.pendingApproval).approved =
          some (g'', forced) ∧
      oneCallGate.WithinPolicy approvedTools (auth.signedCalls ++ forced) := by
  have hruns : ((oneCallGate.authorize signedWithNumber approvedTools (readCall :: bashCalls)).bind
      fun x => (x.1.forceSign signedWithNumber
        (approveToolCalls false [] allApproved x.2.pendingApproval).approved).map
          fun y => (x, y)).isSome = true := by decide
  obtain ⟨⟨⟨g', auth⟩, ⟨g'', forced⟩⟩, hrun⟩ := Option.isSome_iff_exists.mp hruns
  obtain ⟨⟨g₁, auth₁⟩, hauth, hrest⟩ := Option.bind_eq_some_iff.mp hrun
  obtain ⟨⟨g₂, forced₁⟩, hforce, heq⟩ := Option.map_eq_some_iff.mp hrest
  simp only [Prod.mk.injEq] at heq
  obtain ⟨⟨rfl, rfl⟩, rfl, rfl⟩ := heq
  have hnone : (oneCallGate.authorize signedWithNumber approvedTools (readCall :: bashCalls)).map
      (·.2.pendingApproval) = some [] := by decide
  rw [hauth] at hnone
  have hpending : auth₁.pendingApproval = [] := Option.some.inj hnone
  refine ⟨g₁, g₂, auth₁, forced₁, hauth, hforce,
    (signed_calls_within_policy_iff hauth hforce).mpr (Or.inl ?_)⟩
  rw [hpending]
  rfl

/-- With a limit of one call, both are signed on the user's approval. -/
theorem approved_calls_beyond_limit :
    ¬ ∀ (sign : Sign) (tools : List ToolDefinition) (g g' g'' : SecurityGate)
      (calls : List ToolCall) (autoApprove : Bool) (reviews : List ReviewResult)
      (answers : Nat → HumanAnswer) (auth : AuthorizeResult) (forced : List SignedToolCall),
      g.authorize sign tools calls = some (g', auth) →
      g'.forceSign sign (approveToolCalls autoApprove reviews answers
        auth.pendingApproval).approved = some (g'', forced) →
      g.WithinPolicy tools (auth.signedCalls ++ forced) := by
  intro hclaim
  have hruns : ((oneCallGate.authorize signedWithNumber approvedTools bashCalls).bind
      fun x => (x.1.forceSign signedWithNumber
        (approveToolCalls false [] allApproved x.2.pendingApproval).approved).map
          fun y => (x.2.signedCalls ++ y.2).length) = some 2 := by decide
  obtain ⟨⟨g', auth⟩, hauth, hrest⟩ := Option.bind_eq_some_iff.mp hruns
  obtain ⟨⟨g'', forced⟩, hforce, hlength⟩ := Option.map_eq_some_iff.mp hrest
  have hwithin := (hclaim _ _ _ g' g'' bashCalls false [] allApproved auth forced hauth hforce).1
  rw [hlength] at hwithin
  exact absurd hwithin (by decide)

end NeuralHub.AgentLoop
