/-
NeuralHub.AgentLoop.CompactionTheorems — compaction keeps histories paired.

The archiving of results changes messages one by one and keeps what the
pairing reads (`SameShape`). The summaries cut a list: `recentMessages`
never begins with a tool message, because such a message has a result
whose call is on the other side of the cut, so the recent part is paired
when the whole list is. What a summary replaces and what it keeps are
all the messages there were (`perm_replaceOld`).
-/
import NeuralHub.AgentLoop.Compaction

namespace NeuralHub.AgentLoop

open NeuralHub.Lib

/-- The messages of pairs are not taken for summaries, and its tool
messages make no calls of their own. -/
def PairsPlain (history : List Message) : Prop :=
  ∀ m ∈ history, m.calling = true ∨ m.isTool = true →
    isSummaryMessage m = false ∧ (m.isTool = true → m.toolCalls = [])

instance (history : List Message) : Decidable (PairsPlain history) :=
  inferInstanceAs (Decidable (∀ m ∈ history, _ → _))

theorem PairsPlain.append {xs ys : List Message} (hx : PairsPlain xs) (hy : PairsPlain ys) :
    PairsPlain (xs ++ ys) := by
  intro m hm
  rcases List.mem_append.mp hm with hm | hm
  · exact hx m hm
  · exact hy m hm

theorem PairsPlain.of_subset {xs ys : List Message} (hx : PairsPlain xs) (h : ys ⊆ xs) :
    PairsPlain ys := fun m hm => hx m (h hm)

theorem pairsPlain_singleton {m : Message} (hcall : m.calling = false) (htool : m.isTool = false) :
    PairsPlain [m] := by
  intro m' hm'
  rw [List.mem_singleton.mp hm', hcall, htool]
  simp

/-- Neither a call nor a result: a message that is in no pair. -/
theorem not_calling_of_role {m : Message} (h : m.role = .user ∨ m.role = .system) :
    m.calling = false ∧ m.isTool = false := by
  rcases h with h | h <;> simp [Message.calling, Message.isTool, h]

/-! ## Archiving results -/

/-- Same message but for the texts and the files of its results; only tool
messages differ. -/
structure SameShape (m m' : Message) : Prop where
  id : m'.id = m.id
  role : m'.role = m.role
  content : m'.content = m.content
  kind : m'.kind = m.kind
  calls : m'.toolCalls = m.toolCalls
  results : resultIds m'.toolResults = resultIds m.toolResults
  other : m.isTool = false → m' = m

theorem SameShape.refl (m : Message) : SameShape m m :=
  ⟨rfl, rfl, rfl, rfl, rfl, rfl, fun _ => rfl⟩

theorem SameShape.isTool {m m' : Message} (h : SameShape m m') : m'.isTool = m.isTool := by
  simp only [Message.isTool, h.role]

theorem SameShape.trans {a b c : Message} (h : SameShape a b) (k : SameShape b c) :
    SameShape a c :=
  ⟨k.id.trans h.id, k.role.trans h.role, k.content.trans h.content, k.kind.trans h.kind,
    k.calls.trans h.calls, k.results.trans h.results,
    fun hm => (k.other (h.isTool.trans hm)).trans (h.other hm)⟩

theorem SameShape.calling {m m' : Message} (h : SameShape m m') : m'.calling = m.calling := by
  simp only [Message.calling, h.role, h.calls]

theorem SameShape.isSummary {m m' : Message} (h : SameShape m m') :
    isSummaryMessage m' = isSummaryMessage m := by
  simp only [isSummaryMessage, h.kind, h.content]

@[simp] theorem toolCallId_sinkToolResult (env : Archive) (path : String) (r : ToolResult) :
    (sinkToolResult env path r).toolCallId = r.toolCallId := by
  unfold sinkToolResult
  split <;> rfl

@[simp] theorem resultIds_archiveResults (env : Archive) (path : String) (head : List Message)
    (results : List ToolResult) :
    resultIds (archiveResults env path head results).1 = resultIds results := by
  induction results with
  | nil => rfl
  | cons r rest ih =>
    simp only [archiveResults]
    split
    · simp [resultIds]
    · simpa [resultIds] using ih

theorem forall₂_sameShape_refl (ms : List Message) : List.Forall₂ SameShape ms ms :=
  List.forall₂_same.mpr fun m _ => .refl m

theorem sameShape_archiveOldestLargeResult (env : Archive) (path : String)
    (head ms : List Message) :
    List.Forall₂ SameShape ms (archiveOldestLargeResult env path head ms).1 := by
  induction ms with
  | nil => exact .nil
  | cons m rest ih =>
    simp only [archiveOldestLargeResult]
    split
    · exact .cons (.refl m) ih
    · rename_i hrole
      have hids := resultIds_archiveResults env path head m.toolResults
      have htool : m.isTool = true := by
        rw [not_or, not_not] at hrole
        simp [Message.isTool, hrole.1]
      have hother : ∀ m', m.isTool = false → m' = m := fun m' hno => by
        rw [htool] at hno
        cases hno
      split
      · rename_i results heq
        rw [heq] at hids
        exact .cons ⟨rfl, rfl, rfl, rfl, rfl, hids, hother _⟩ (forall₂_sameShape_refl rest)
      · rename_i results heq
        rw [heq] at hids
        exact .cons ⟨rfl, rfl, rfl, rfl, rfl, hids, hother _⟩ ih

theorem sameShape_compactOldestLargeToolResult (env : Archive) (path : String)
    (ms : List Message) :
    List.Forall₂ SameShape ms (compactOldestLargeToolResult env path ms).1 := by
  unfold compactOldestLargeToolResult
  split
  · exact forall₂_sameShape_refl ms
  · have hhead := sameShape_archiveOldestLargeResult env path
      (ms.take (ms.length - recentKeepCount)) (ms.take (ms.length - recentKeepCount))
    have htail := forall₂_sameShape_refl (ms.drop (ms.length - recentKeepCount))
    have hboth := List.rel_append hhead htail
    simp only [List.take_append_drop] at hboth
    exact hboth

theorem forall₂_sameShape_trans {as bs cs : List Message} (h : List.Forall₂ SameShape as bs)
    (k : List.Forall₂ SameShape bs cs) : List.Forall₂ SameShape as cs := by
  induction h generalizing cs with
  | nil => exact k
  | cons hab _ ih =>
    cases k with
    | cons hbc hrest => exact .cons (hab.trans hbc) (ih hrest)

theorem map_id_of_sameShape {ms ms' : List Message} (h : List.Forall₂ SameShape ms ms') :
    ms'.map (·.id) = ms.map (·.id) := by
  induction h with
  | nil => rfl
  | cons hm _ ih => rw [List.map_cons, List.map_cons, hm.id, ih]

theorem sameShape_compactPasses (env : Archive) (paths : List String) (ms : List Message) :
    List.Forall₂ SameShape ms (compactPasses env paths ms) := by
  induction paths generalizing ms with
  | nil => exact forall₂_sameShape_refl ms
  | cons path paths ih =>
    have hpass := sameShape_compactOldestLargeToolResult env path ms
    simp only [compactPasses]
    split
    · rename_i out heq
      rw [heq] at hpass
      exact forall₂_sameShape_trans hpass (ih out)
    · rename_i out heq
      rw [heq] at hpass
      exact hpass

theorem sameShape_checkAndCompact (env : Archive) (readable : Bool) (paths : List String)
    (ms : List Message) :
    List.Forall₂ SameShape ms (checkAndCompact env readable paths ms) := by
  unfold checkAndCompact
  split
  · exact sameShape_compactPasses env paths ms
  · exact forall₂_sameShape_refl ms

theorem HistoryPaired.of_sameShape {ms ms' : List Message} (h : HistoryPaired ms)
    (hrel : List.Forall₂ SameShape ms ms') : HistoryPaired ms' := by
  refine Pairing.Paired.of_related (R := SameShape) ?_ ?_ h hrel
  · intro m m' hm
    exact ⟨hm.calling, hm.isTool⟩
  · intro m t m' t' hm ht ha
    simp only [toolPairing, Message.answers] at ha ⊢
    rw [ht.results, hm.calls]
    exact ha

theorem PairsPlain.of_sameShape {ms ms' : List Message} (h : PairsPlain ms)
    (hrel : List.Forall₂ SameShape ms ms') : PairsPlain ms' := by
  induction hrel with
  | nil => exact h
  | @cons m m' rest rest' hm _ ih =>
    have hrest : PairsPlain rest' := ih (h.of_subset (List.subset_cons_self m rest))
    intro x hx
    rcases List.mem_cons.mp hx with rfl | hx
    · rw [hm.calling, hm.isTool, hm.isSummary, hm.calls]
      exact h m List.mem_cons_self
    · exact hrest x hx

/-! ## Replacing the old part by a summary -/

/-- A tool message of a paired history has a result. -/
theorem HistoryPaired.toolResults_ne_nil {ms : List Message} {t : Message}
    (h : HistoryPaired ms) (ht : t ∈ ms) (htool : t.isTool = true) : t.toolResults ≠ [] := by
  obtain ⟨pre, post, rfl⟩ := List.append_of_mem ht
  obtain ⟨before, m, -, hm, ha⟩ := (Pairing.Paired.adjacent h).asked pre t post rfl htool
  intro hnil
  have hcalls : m.toolCalls ≠ [] := (Message.calling_iff.mp hm).2
  have hperm : (resultIds t.toolResults).Perm (callIds m.toolCalls) := ha
  rw [hnil, resultIds_nil, List.nil_perm, callIds, List.map_eq_nil_iff] at hperm
  exact hcalls hperm

theorem historyPaired_nonSystemMessages {ms : List Message} (h : HistoryPaired ms)
    (hp : PairsPlain ms) : HistoryPaired (nonSystemMessages ms) := by
  refine Pairing.Paired.filter h fun m hm hpair => ?_
  have hplain := (hp m hm hpair).1
  rcases hpair with hcall | htool
  · simp [(Message.calling_iff.mp hcall).1, hplain]
  · have hrole : m.role = .tool := by simpa [toolPairing, Message.isTool] using htool
    simp [hrole, hplain]

theorem nonSystemMessages_subset (ms : List Message) : nonSystemMessages ms ⊆ ms :=
  List.filter_subset_self _

theorem recentMessages_subset (reserve : Nat) (ms : List Message) :
    recentMessages reserve ms ⊆ ms := by
  intro m hm
  refine nonSystemMessages_subset ms ?_
  rw [← alignRecentBoundary_append (nonSystemMessages ms) reserve]
  exact List.mem_append_right _ hm

theorem oldMessages_subset (reserve : Nat) (ms : List Message) : oldMessages reserve ms ⊆ ms := by
  intro m hm
  refine nonSystemMessages_subset ms ?_
  rw [← alignRecentBoundary_append (nonSystemMessages ms) reserve]
  exact List.mem_append_left _ hm

/-- The cut never separates a call from its results. -/
theorem historyPaired_recentMessages {ms : List Message} (h : HistoryPaired ms)
    (hp : PairsPlain ms) (reserve : Nat) : HistoryPaired (recentMessages reserve ms) := by
  have hns := historyPaired_nonSystemMessages h hp
  have hsplit := alignRecentBoundary_append (nonSystemMessages ms) reserve
  have hresults : toolResultsPaired [] (recentMessages reserve ms) = true :=
    toolResultsPaired_alignRecentBoundary (nonSystemMessages ms) reserve
  have hpaired : HistoryPaired (oldMessages reserve ms ++
      recentMessages reserve ms) := by
    rw [oldMessages, recentMessages, hsplit]
    exact hns
  refine Pairing.Paired.of_append_right hpaired fun t ht => ?_
  by_contra htool
  rw [Bool.not_eq_false] at htool
  -- a leading tool message has a result, and no call of the recent part comes before it
  obtain ⟨rest, hrecent⟩ : ∃ rest, recentMessages reserve ms = t :: rest :=
    ⟨_, List.eq_cons_of_mem_head? ht⟩
  have hmem : t ∈ recentMessages reserve ms :=
    hrecent ▸ List.mem_cons_self
  have hcalls : t.toolCalls = [] :=
    (hp t (recentMessages_subset reserve ms hmem) (Or.inr htool)).2 htool
  have hne : t.toolResults ≠ [] :=
    hpaired.toolResults_ne_nil (List.mem_append_right _ hmem) htool
  obtain ⟨r, results, hr⟩ := List.exists_cons_of_ne_nil hne
  rw [hrecent] at hresults
  simp [toolResultsPaired, hcalls, hr, resultIds] at hresults

theorem historyPaired_replaceOld {ms : List Message} (h : HistoryPaired ms) (hp : PairsPlain ms)
    (id : Nat) (s : Summary) (reserve : Nat) : HistoryPaired (replaceOld id s reserve ms) := by
  have hsystem : HistoryPaired (systemMessages ms) :=
    Pairing.Paired.of_forall fun m hm => by
      have hrole : m.role = .system := by simpa [systemMessages] using (List.mem_filter.mp hm).2
      exact not_calling_of_role (Or.inr hrole)
  have hsummary : HistoryPaired (summaryMessages ms) :=
    Pairing.Paired.of_forall fun m hm => by
      obtain ⟨hmem, hsum⟩ := List.mem_filter.mp hm
      simp only [Bool.and_eq_true] at hsum
      have hno : ¬ (m.calling = true ∨ m.isTool = true) := fun hpair => by
        have := (hp m hmem hpair).1
        rw [hsum.2] at this
        cases this
      rw [not_or, Bool.not_eq_true, Bool.not_eq_true] at hno
      exact hno
  have hnew := not_calling_of_role (Or.inl (role_buildSummaryMessage id s))
  exact Pairing.Paired.append
    (Pairing.Paired.snoc (Pairing.Paired.append hsystem hsummary) hnew.1 hnew.2)
    (historyPaired_recentMessages h hp reserve)

theorem replaceOld_subset {id : Nat} {s : Summary} {reserve : Nat} {ms : List Message}
    {m : Message} (hm : m ∈ replaceOld id s reserve ms) : m = buildSummaryMessage id s ∨ m ∈ ms := by
  simp only [replaceOld, List.mem_append, List.mem_singleton] at hm
  rcases hm with ((hm | hm) | hm) | hm
  · exact Or.inr (List.mem_of_mem_filter hm)
  · exact Or.inr (List.mem_of_mem_filter hm)
  · exact Or.inl hm
  · exact Or.inr (recentMessages_subset reserve ms hm)

theorem pairsPlain_replaceOld {ms : List Message} (hp : PairsPlain ms) (id : Nat) (s : Summary)
    (reserve : Nat) : PairsPlain (replaceOld id s reserve ms) := by
  intro m hm hpair
  rcases replaceOld_subset hm with rfl | hm
  · obtain ⟨hcall, htool⟩ := not_calling_of_role (Or.inl (role_buildSummaryMessage id s))
    rw [hcall, htool] at hpair
    simp at hpair
  · exact hp m hm hpair

/-- A summary replaces the old messages and keeps all others. -/
theorem perm_replaceOld (id : Nat) (s : Summary) (reserve : Nat) (ms : List Message) :
    (replaceOld id s reserve ms ++ oldMessages reserve ms).Perm
      (ms ++ [buildSummaryMessage id s]) := by
  have hns : oldMessages reserve ms ++ recentMessages reserve ms = nonSystemMessages ms :=
    alignRecentBoundary_append (nonSystemMessages ms) reserve
  have hparts : (systemMessages ms ++ (summaryMessages ms ++ nonSystemMessages ms)).Perm ms := by
    have hrest : (summaryMessages ms ++ nonSystemMessages ms).Perm
        (ms.filter fun m => !(m.role == .system)) := by
      have hsplit := List.filter_append_perm isSummaryMessage
        (ms.filter fun m => !(m.role == .system))
      rw [List.filter_filter, List.filter_filter] at hsplit
      simpa only [summaryMessages, nonSystemMessages, bne, Bool.and_comm] using hsplit
    have hsystem := List.filter_append_perm (fun m : Message => m.role == .system) ms
    exact (hrest.append_left _).trans hsystem
  rw [← hns] at hparts
  rw [List.perm_iff_count] at hparts ⊢
  intro m
  have hm := hparts m
  simp only [replaceOld, List.count_append] at hm ⊢
  omega

theorem recentMessages_sublist (reserve : Nat) (ms : List Message) :
    (recentMessages reserve ms).Sublist (nonSystemMessages ms) := by
  rw [← alignRecentBoundary_append (nonSystemMessages ms) reserve]
  exact List.sublist_append_right _ _

end NeuralHub.AgentLoop
