/-
NeuralHub.AgentLoop.ToolPhaseTheorems — no call is lost and none is
answered twice.

Each stage of the tool phase has one lemma: the ids of what it was given
are, as a multiset, the ids of what it hands on and of the results it
makes itself. Nothing here needs the ids to be distinct. The one stage
that looks results up by id is `mergeResults`, and there every signed
call has a result to find (`executeSignedBatch_answers`,
`executeSignedSerial_answers`).
-/
import NeuralHub.AgentLoop.ToolPhase

namespace NeuralHub.AgentLoop

open NeuralHub.Lib

/-- The ids of signed calls. -/
def signedIds (calls : List SignedToolCall) : List String := calls.map (·.toolCall.id)

@[simp] theorem signedIds_nil : signedIds [] = [] := rfl

@[simp] theorem signedIds_append (xs ys : List SignedToolCall) :
    signedIds (xs ++ ys) = signedIds xs ++ signedIds ys := List.map_append

/-! ## Repeated failures -/

namespace ToolFailureRecoveryTracker

theorem splitRepeated_ids (env : Describe) (t : ToolFailureRecoveryTracker)
    (calls : List ToolCall) :
    (callIds (t.splitRepeated env calls).1 ++ resultIds (t.splitRepeated env calls).2).Perm
      (callIds calls) := by
  induction calls with
  | nil => exact .nil
  | cons call calls ih =>
    have hallow : (callIds (call :: (t.splitRepeated env calls).1) ++
        resultIds (t.splitRepeated env calls).2).Perm (callIds (call :: calls)) := ih.cons call.id
    simp only [splitRepeated]
    split
    · exact hallow
    · split
      · exact hallow
      · exact List.perm_middle.trans (ih.cons call.id)

theorem toolCallId_annotateOne (env : Describe) (callMap : String → Option ToolCall)
    (t : ToolFailureRecoveryTracker) (r : ToolResult) :
    (t.annotateOne env callMap r).2.toolCallId = r.toolCallId := by
  unfold annotateOne
  split
  · rfl
  · split
    · rfl
    · split
      · rfl
      · dsimp only
        split <;> rfl

theorem resultIds_annotateFrom (env : Describe) (callMap : String → Option ToolCall)
    (t : ToolFailureRecoveryTracker) (results : List ToolResult) :
    resultIds (t.annotateFrom env callMap results).2 = resultIds results := by
  induction results generalizing t with
  | nil => rfl
  | cons r rest ih =>
    have hone := t.toolCallId_annotateOne env callMap r
    have hrest := ih (t.annotateOne env callMap r).1
    simp only [resultIds, annotateFrom, List.map_cons] at hrest ⊢
    rw [hone, hrest]

/-- Annotations change no id. -/
@[simp] theorem resultIds_annotate (env : Describe) (callMap : String → Option ToolCall)
    (t : ToolFailureRecoveryTracker) (results : List ToolResult) :
    resultIds (t.annotate env callMap results).2 = resultIds results := by
  unfold annotate
  split
  · rfl
  · exact resultIds_annotateFrom env callMap t results

end ToolFailureRecoveryTracker

/-! ## The gate -/

namespace SecurityGate

theorem toolCall_signNext {sign : Sign} {g g' : SecurityGate} {call : ToolCall}
    {c : SignedToolCall} (h : g.signNext sign call = some (g', c)) : c.toolCall = call := by
  simp only [signNext, Option.map_eq_some_iff, Prod.mk.injEq] at h
  obtain ⟨_, -, -, rfl⟩ := h
  rfl

/-- The ids an `AuthorizeResult` accounts for. -/
def authorizedIds (a : AuthorizeResult) : List String :=
  signedIds a.signedCalls ++ (resultIds a.rejectedResults ++ callIds a.pendingApproval)

theorem authorizeFrom_ids {sign : Sign} {tools : List ToolDefinition} {g g' : SecurityGate}
    {acc a : AuthorizeResult} {calls : List ToolCall}
    (h : authorizeFrom sign tools g acc calls = some (g', a)) :
    (authorizedIds a).Perm (authorizedIds acc ++ callIds calls) := by
  induction calls generalizing g acc with
  | nil =>
    obtain ⟨-, rfl⟩ := Prod.mk.inj (Option.some.inj h)
    rw [callIds_nil, List.append_nil]
  | cons call calls ih =>
    have hone : ∀ acc', (authorizedIds acc').Perm (authorizedIds acc ++ [call.id]) →
        (authorizedIds a).Perm (authorizedIds acc' ++ callIds calls) →
        (authorizedIds a).Perm (authorizedIds acc ++ callIds (call :: calls)) := by
      intro acc' hacc ha
      have hstep := hacc.append_right (callIds calls)
      rw [List.append_assoc, List.singleton_append] at hstep
      exact ha.trans hstep
    simp only [authorizeFrom] at h
    split at h
    · refine hone _ ?_ (ih h)
      simp only [authorizedIds, callIds_append, List.append_assoc]
      exact .refl _
    · split at h
      · refine hone _ ?_ (ih h)
        simp only [authorizedIds, resultIds_append, List.append_assoc]
        exact (List.perm_append_comm.append_left _).append_left _
      · obtain ⟨⟨g₁, c⟩, hsign, hrest⟩ := Option.bind_eq_some_iff.mp h
        refine hone _ ?_ (ih hrest)
        have hid : signedIds [c] = [call.id] := by
          simp only [signedIds, List.map_singleton, toolCall_signNext hsign]
        simp only [authorizedIds, signedIds_append, List.append_assoc, hid]
        have hswap : ([call.id] ++ (resultIds acc.rejectedResults ++
            callIds acc.pendingApproval)).Perm
            (resultIds acc.rejectedResults ++ callIds acc.pendingApproval ++ [call.id]) :=
          List.perm_append_comm
        rw [List.append_assoc] at hswap
        exact hswap.append_left _

theorem authorize_ids {sign : Sign} {tools : List ToolDefinition} {g g' : SecurityGate}
    {a : AuthorizeResult} {calls : List ToolCall}
    (h : authorize sign tools g calls = some (g', a)) :
    (authorizedIds a).Perm (callIds calls) := authorizeFrom_ids h

theorem forceSign_ids {sign : Sign} {g g' : SecurityGate} {calls : List ToolCall}
    {signed : List SignedToolCall} (h : forceSign sign g calls = some (g', signed)) :
    signedIds signed = callIds calls := by
  induction calls generalizing g g' signed with
  | nil =>
    obtain ⟨-, rfl⟩ := Prod.mk.inj (Option.some.inj h)
    rfl
  | cons call calls ih =>
    obtain ⟨⟨g₁, c⟩, hsign, hrest⟩ := Option.bind_eq_some_iff.mp h
    obtain ⟨⟨g₂, rest⟩, hforce, heq⟩ := Option.map_eq_some_iff.mp hrest
    obtain ⟨-, rfl⟩ := Prod.mk.inj heq
    have hrest := ih hforce
    simp only [signedIds, callIds, List.map_cons, toolCall_signNext hsign] at hrest ⊢
    rw [hrest]

end SecurityGate

/-! ## Review and approval -/

/-- The ids that approvals account for. -/
def Approvals.ids (a : Approvals) : List String :=
  callIds a.approved ++ (resultIds a.results ++ callIds a.human)

theorem Approvals.add_ids (a : Approvals) (reviewed : ToolCall × ReviewResult) :
    (a.add reviewed).ids.Perm (a.ids ++ [reviewed.1.id]) := by
  rw [List.perm_iff_count]
  intro id
  unfold add
  split <;> simp only [ids, callIds, resultIds, approvalResult, List.map_append, List.map_cons,
    List.map_nil, List.count_append] <;> omega

theorem Approvals.foldl_add_ids (reviewed : List (ToolCall × ReviewResult)) (a : Approvals) :
    (reviewed.foldl add a).ids.Perm (a.ids ++ callIds (reviewed.map Prod.fst)) := by
  induction reviewed generalizing a with
  | nil =>
    rw [List.map_nil, callIds_nil, List.append_nil]
    exact .refl _
  | cons first rest ih =>
    have hstep := (a.add_ids first).append_right (callIds (rest.map Prod.fst))
    rw [List.append_assoc] at hstep
    exact (ih (a.add first)).trans hstep

theorem length_padReviews (n : Nat) (results : List ReviewResult) :
    (padReviews n results).length = n := by
  rw [padReviews, List.length_take, List.length_append, List.length_replicate]
  omega

theorem reviewToolApprovals_ids (calls : List ToolCall) (results : List ReviewResult) :
    (reviewToolApprovals calls results).ids.Perm (callIds calls) := by
  have hcalls : (reviewToolCalls calls results).map Prod.fst = calls := by
    refine List.map_fst_zip ?_
    rw [length_padReviews]
  have hfold := Approvals.foldl_add_ids (reviewToolCalls calls results) {}
  rw [hcalls] at hfold
  exact hfold

theorem waitOneApproval_ids (aborted : Bool) (decision : Option Bool) (call : ToolCall)
    (a : Approvals) : (waitOneApproval aborted decision call a).ids.Perm (a.ids ++ [call.id]) := by
  rw [List.perm_iff_count]
  intro id
  unfold waitOneApproval
  split
  · simp only [Approvals.ids, callIds, resultIds, approvalResult, List.map_append, List.map_cons,
      List.map_nil, List.count_append]
    omega
  · split <;> simp only [Approvals.ids, callIds, resultIds, approvalResult, List.map_append,
      List.map_cons, List.map_nil, List.count_append] <;> omega

/-- Waiting for one call leaves the calls for the user alone. -/
@[simp] theorem human_waitOneApproval (aborted : Bool) (decision : Option Bool) (call : ToolCall)
    (a : Approvals) : (waitOneApproval aborted decision call a).human = a.human := by
  unfold waitOneApproval
  split
  · rfl
  · split <;> rfl

/-! ## Execution -/

theorem toolCallId_execute {tools : List ToolDefinition} {call : ToolCall} {outcome : Outcome}
    {r : ToolResult} (h : execute tools call outcome = some r) : r.toolCallId = call.id := by
  unfold execute at h
  split at h
  · exact Option.some.inj h ▸ rfl
  · exact Option.some.inj h ▸ rfl
  · exact Option.some.inj h ▸ rfl
  · exact Option.some.inj h ▸ rfl
  · cases h

theorem toolCallId_executeSigned {sign : Sign} {tools : List ToolDefinition} {g g' : SecurityGate}
    {c : SignedToolCall} {outcome : Outcome} {r : ToolResult}
    (h : executeSigned sign tools g c outcome = (g', some r)) : r.toolCallId = c.toolCall.id := by
  unfold executeSigned at h
  split at h
  · obtain ⟨-, hr⟩ := Prod.mk.inj h
    obtain rfl := Option.some.inj hr
    rfl
  · obtain ⟨-, hr⟩ := Prod.mk.inj h
    exact toolCallId_execute hr

theorem map_fst_executeEach (sign : Sign) (tools : List ToolDefinition) (g : SecurityGate)
    (work : List ((SignedToolCall × Nat) × Outcome)) :
    (executeEach sign tools g work).2.map Prod.fst = work.map (fun w => w.1.2) := by
  induction work generalizing g with
  | nil => rfl
  | cons w rest ih =>
    simp only [executeEach, List.map_cons]
    rw [ih]

/-- An entry stands under the position of a call and carries its id. -/
theorem mem_executeEach {sign : Sign} {tools : List ToolDefinition} {g : SecurityGate}
    {work : List ((SignedToolCall × Nat) × Outcome)} {index : Nat} {r : ToolResult}
    (h : (index, some r) ∈ (executeEach sign tools g work).2) :
    ∃ w ∈ work, w.1.2 = index ∧ r.toolCallId = w.1.1.toolCall.id := by
  induction work generalizing g with
  | nil => cases h
  | cons w rest ih =>
    simp only [executeEach, List.mem_cons] at h
    rcases h with h | h
    · obtain ⟨hindex, hr⟩ := Prod.mk.inj h
      exact ⟨w, List.mem_cons_self, hindex.symm, toolCallId_executeSigned (Prod.ext rfl hr.symm)⟩
    · obtain ⟨w', hw', hentry⟩ := ih h
      exact ⟨w', List.mem_cons_of_mem w hw', hentry⟩

theorem mem_bySequence {calls : List SignedToolCall} {c : SignedToolCall} {index : Nat} :
    (c, index) ∈ bySequence calls ↔ calls[index]? = some c := by
  rw [bySequence, (List.perm_insertionSort _ _).mem_iff, List.mem_zipIdx_iff_getElem?]

@[simp] theorem length_bySequence (calls : List SignedToolCall) :
    (bySequence calls).length = calls.length := by
  rw [bySequence, List.length_insertionSort, List.length_zipIdx]

/-- Every call of a batch has a result under its id, unless one was cancelled. -/
theorem executeSignedBatch_answers {sign : Sign} {tools : List ToolDefinition} {g : SecurityGate}
    {calls : List SignedToolCall} {outcomes : List Outcome}
    (hlen : outcomes.length = calls.length)
    (hall : (executeSignedBatch sign tools g calls outcomes).2.all (·.isSome) = true) :
    ∀ c ∈ calls, ∃ r ∈ (executeSignedBatch sign tools g calls outcomes).2.filterMap id,
      r.toolCallId = c.toolCall.id := by
  intro c hc
  obtain ⟨index, hlt, hindex⟩ := List.mem_iff_getElem.mp hc
  have hget : calls[index]? = some c := by rw [List.getElem?_eq_getElem hlt, hindex]
  have hfst : ((bySequence calls).zip outcomes).map Prod.fst = bySequence calls := by
    refine List.map_fst_zip ?_
    rw [length_bySequence, hlen]
  obtain ⟨w, hw, hwc⟩ : ∃ w ∈ (bySequence calls).zip outcomes, w.1 = (c, index) := by
    have hmem := mem_bySequence.mpr hget
    rw [← hfst] at hmem
    exact List.mem_map.mp hmem
  -- the position has an entry, which is not a cancellation
  have hkey : index ∈ (executeEach sign tools g ((bySequence calls).zip outcomes)).2.map
      Prod.fst := by
    rw [map_fst_executeEach]
    exact List.mem_map.mpr ⟨w, hw, by rw [hwc]⟩
  obtain ⟨e, hlookup⟩ : ∃ e, (executeEach sign tools g ((bySequence calls).zip outcomes)).2.lookup
      index = some e := by
    rw [← Option.isSome_iff_exists, List.lookup_isSome_iff]
    obtain ⟨e, he, heq⟩ := List.mem_map.mp hkey
    exact ⟨e, he, by simp [heq]⟩
  have hentry : e ∈ (executeSignedBatch sign tools g calls outcomes).2 :=
    List.mem_filterMap.mpr ⟨index, List.mem_range.mpr hlt, hlookup⟩
  obtain ⟨r, rfl⟩ := Option.isSome_iff_exists.mp (List.all_eq_true.mp hall e hentry)
  refine ⟨r, List.mem_filterMap.mpr ⟨some r, hentry, rfl⟩, ?_⟩
  -- and the entry under a position is the result of the call there
  obtain ⟨pre, post, hordered, -⟩ := List.lookup_eq_some_iff.mp hlookup
  have hmem : (index, some r) ∈ (executeEach sign tools g ((bySequence calls).zip outcomes)).2 := by
    rw [hordered]
    exact List.mem_append_right pre List.mem_cons_self
  obtain ⟨w', hw', hidx, hid⟩ := mem_executeEach hmem
  have hsame : calls[index]? = some w'.1.1 := by
    rw [← mem_bySequence, ← hidx, ← hfst]
    exact List.mem_map.mpr ⟨w', hw', rfl⟩
  rw [hget] at hsame
  rw [hid, ← Option.some.inj hsame]

theorem executeSerially_answers {sign : Sign} {tools : List ToolDefinition} {g g' : SecurityGate}
    {work : List (SignedToolCall × Outcome)} {results : List ToolResult}
    (h : executeSerially sign tools g work = (g', some results)) :
    resultIds results = signedIds (work.map Prod.fst) := by
  induction work generalizing g g' results with
  | nil =>
    obtain ⟨-, hr⟩ := Prod.mk.inj h
    obtain rfl := Option.some.inj hr
    rfl
  | cons w rest ih =>
    obtain ⟨c, outcome⟩ := w
    simp only [executeSerially] at h
    split at h
    · cases (Prod.mk.inj h).2
    · rename_i g₁ r hr
      obtain ⟨-, hmap⟩ := Prod.mk.inj h
      obtain ⟨rest', hrest', rfl⟩ := Option.map_eq_some_iff.mp hmap
      have hids := ih (Prod.ext rfl hrest')
      simp only [resultIds, signedIds, List.map_cons] at hids ⊢
      rw [hids, toolCallId_executeSigned hr]

theorem executeSignedSerial_answers {sign : Sign} {tools : List ToolDefinition}
    {g g' : SecurityGate} {calls : List SignedToolCall} {outcomes : List Outcome}
    {results : List ToolResult} (hlen : outcomes.length = calls.length)
    (h : executeSignedSerial sign tools g calls outcomes = (g', some results)) :
    ∀ c ∈ calls, ∃ r ∈ results, r.toolCallId = c.toolCall.id := by
  have hids := executeSerially_answers h
  rw [List.map_fst_zip (by rw [List.length_insertionSort, hlen])] at hids
  intro c hc
  have hmem : c.toolCall.id ∈ resultIds results := by
    rw [hids]
    exact List.mem_map.mpr ⟨c, (List.perm_insertionSort _ _).mem_iff.mpr hc, rfl⟩
  exact List.mem_map.mp hmem

/-! ## Merging -/

theorem mem_partitionBySideEffect {calls : List SignedToolCall} {tools : List ToolDefinition}
    {c : SignedToolCall} (h : c ∈ calls) :
    c ∈ (partitionBySideEffect calls tools).1 ∨ c ∈ (partitionBySideEffect calls tools).2 := by
  simp only [partitionBySideEffect, List.partition_eq_filter_filter, List.mem_filter]
  cases hro : isReadOnly tools c with
  | true => exact Or.inl ⟨h, rfl⟩
  | false => exact Or.inr ⟨h, by simp [hro]⟩

theorem resultById_of_mem {results : List ToolResult} {r : ToolResult} (h : r ∈ results) :
    ∃ r', resultById results r.toolCallId = some r' ∧ r'.toolCallId = r.toolCallId := by
  have hsome : (resultById results r.toolCallId).isSome = true := by
    rw [resultById, List.find?_isSome]
    exact ⟨r, List.mem_reverse.mpr h, by simp⟩
  obtain ⟨r', hr'⟩ := Option.isSome_iff_exists.mp hsome
  exact ⟨r', hr', by simpa using List.find?_some hr'⟩

theorem resultIds_filterMap_resultById {results : List ToolResult} {calls : List SignedToolCall}
    (hall : ∀ c ∈ calls, ∃ r ∈ results, r.toolCallId = c.toolCall.id) :
    resultIds (calls.filterMap fun c => resultById results c.toolCall.id) = signedIds calls := by
  induction calls with
  | nil => rfl
  | cons c calls ih =>
    have hrest := ih fun c' hc' => hall c' (List.mem_cons_of_mem c hc')
    obtain ⟨r, hr, hid⟩ := hall c List.mem_cons_self
    obtain ⟨r', hfind, hr'⟩ := resultById_of_mem hr
    rw [hid] at hfind hr'
    simp only [resultIds, signedIds, List.filterMap_cons, hfind, List.map_cons] at hrest ⊢
    rw [hr', hrest]

/-- What is merged carries the ids of the signed calls, in their order. -/
theorem mergeResults_ids {readResults : List (Option ToolResult)}
    {writeResults results : List ToolResult} {calls : List SignedToolCall}
    (h : mergeResults readResults writeResults calls = some results)
    (hall : ∀ c ∈ calls, ∃ r ∈ readResults.filterMap id ++ writeResults,
      r.toolCallId = c.toolCall.id) :
    resultIds results = signedIds calls := by
  unfold mergeResults at h
  split at h
  · exact Option.some.inj h ▸ resultIds_filterMap_resultById hall
  · cases h

end NeuralHub.AgentLoop
