/-
NeuralHub.AgentLoop.SummariesTheorems — a summary loses nothing.

`Summarised` says what a stage may do to a list: all system messages stay,
all earlier summaries stay, one new summary comes behind them, and the
rest is cut in two, of which the second part stays. `summarised_replaceOld`
is that statement for `replaceOld`, which every path of both stages ends
in, so what remains for a path is that it has something to cut.

What the kept part says about its tool results holds by the second loop of
`align_recent_boundary`, whatever the list was. That it does not begin
with a tool message needs `ResultsPaired`.
-/
import NeuralHub.AgentLoop.CompactionTheorems
import NeuralHub.AgentLoop.Summaries

namespace NeuralHub.AgentLoop

open NeuralHub.Lib

variable {ms out kept dropped : List Message} {reserve id : Nat} {dump : Message → List Char}

/-! ## Paired results -/

/-- Each tool message directly follows an assistant message with calls, and
its results have exactly the ids of these. It makes no calls of its own,
and results are nowhere else. -/
structure ResultsPaired (ms : List Message) : Prop where
  asked : ∀ pre t post, ms = pre ++ t :: post → t.isTool = true →
    ∃ before m, pre = before ++ [m] ∧ m.calling = true ∧
      ∀ callId, callId ∈ resultIds t.toolResults ↔ callId ∈ callIds m.toolCalls
  results : ∀ m ∈ ms, m.toolResults ≠ [] → m.isTool = true
  calls : ∀ m ∈ ms, m.isTool = true → m.toolCalls = []

/-- A paired history is one, when calls and results are where they belong. -/
theorem HistoryPaired.resultsPaired (h : HistoryPaired ms)
    (hresults : ∀ m ∈ ms, m.toolResults ≠ [] → m.isTool = true)
    (hcalls : ∀ m ∈ ms, m.isTool = true → m.toolCalls = []) : ResultsPaired ms where
  asked pre t post heq ht := by
    obtain ⟨before, m, hpre, hopen, hanswers⟩ := (Pairing.Paired.adjacent h).asked pre t post heq ht
    exact ⟨before, m, hpre, hopen, fun callId => List.Perm.mem_iff hanswers⟩
  results := hresults
  calls := hcalls

theorem ResultsPaired.toolResults_ne_nil (h : ResultsPaired ms) {t : Message} (ht : t ∈ ms)
    (htool : t.isTool = true) : t.toolResults ≠ [] := by
  obtain ⟨pre, post, heq⟩ := List.append_of_mem ht
  obtain ⟨before, m, -, hopen, hids⟩ := h.asked pre t post heq htool
  obtain ⟨call, calls, hcall⟩ := List.exists_cons_of_ne_nil (Message.calling_iff.mp hopen).2
  intro hnil
  have hmem : call.id ∈ resultIds t.toolResults := (hids call.id).mpr (by simp [callIds, hcall])
  simp [hnil] at hmem

/-! ## The kept part -/

/-- The call of every result is made by an earlier message. -/
def CallsInFront (ms : List Message) : Prop :=
  ∀ pre m post, ms = pre ++ m :: post → ∀ r ∈ m.toolResults,
    ∃ asking ∈ pre, r.toolCallId ∈ callIds asking.toolCalls

theorem mem_of_toolResultsPaired {available : List String}
    (h : toolResultsPaired available ms = true) {pre post : List Message} {m : Message}
    (heq : ms = pre ++ m :: post) {r : ToolResult} (hr : r ∈ m.toolResults) :
    r.toolCallId ∈ available ++ (pre ++ [m]).flatMap fun x => callIds x.toolCalls := by
  induction pre generalizing available ms with
  | nil =>
    subst heq
    simp only [List.nil_append, toolResultsPaired, Bool.and_eq_true, List.all_eq_true] at h
    have hmem := h.1 r.toolCallId (List.mem_map_of_mem hr)
    simpa using hmem
  | cons x pre ih =>
    subst heq
    simp only [List.cons_append, toolResultsPaired, Bool.and_eq_true] at h
    have hmem := ih h.2 rfl
    simpa only [List.cons_append, List.flatMap_cons, List.append_assoc] using hmem

theorem length_moveLeadingTools_le (old recent : List Message) :
    (moveLeadingTools old recent).2.length ≤ recent.length := by
  induction recent generalizing old with
  | nil => simp [moveLeadingTools]
  | cons m recent ih =>
    simp only [moveLeadingTools]
    split
    · exact Nat.le_succ_of_le (ih (old ++ [m]))
    · exact Nat.le_refl _

theorem length_moveUnpaired_le (old recent : List Message) :
    (moveUnpaired old recent).2.length ≤ recent.length := by
  induction recent generalizing old with
  | nil => simp [moveUnpaired]
  | cons m recent ih =>
    simp only [moveUnpaired]
    split
    · exact Nat.le_refl _
    · exact Nat.le_succ_of_le (ih (old ++ [m]))

theorem length_recentMessages_le (reserve : Nat) (ms : List Message) :
    (recentMessages reserve ms).length ≤ reserve := by
  unfold recentMessages alignRecentBoundary
  split
  · simp
  · refine Nat.le_trans (length_moveUnpaired_le _ _) (Nat.le_trans (length_moveLeadingTools_le _ _) ?_)
    rw [List.length_drop]
    omega

theorem ResultsPaired.callsInFront_recentMessages (h : ResultsPaired ms) (reserve : Nat) :
    CallsInFront (recentMessages reserve ms) := by
  have hpaired : toolResultsPaired [] (recentMessages reserve ms) = true :=
    toolResultsPaired_alignRecentBoundary _ _
  intro pre m post heq r hr
  have hmem : m ∈ ms := recentMessages_subset reserve ms (heq ▸ by simp)
  have hcalls : m.toolCalls = [] := h.calls m hmem (h.results m hmem (List.ne_nil_of_mem hr))
  have hfound := mem_of_toolResultsPaired hpaired heq hr
  simpa [hcalls] using hfound

theorem ResultsPaired.head_recentMessages (h : ResultsPaired ms) {t : Message}
    (ht : t ∈ (recentMessages reserve ms).head?) : t.isTool = false := by
  obtain ⟨rest, heq⟩ : ∃ rest, recentMessages reserve ms = t :: rest := ⟨_, List.eq_cons_of_mem_head? ht⟩
  have hmem : t ∈ ms := recentMessages_subset reserve ms (heq ▸ List.mem_cons_self)
  by_contra htool
  rw [Bool.not_eq_false] at htool
  obtain ⟨r, results, hresults⟩ := List.exists_cons_of_ne_nil (h.toolResults_ne_nil hmem htool)
  -- nothing comes before the first message of the kept part
  obtain ⟨asking, hasking, -⟩ :=
    h.callsInFront_recentMessages reserve [] t rest heq r (hresults ▸ List.mem_cons_self)
  cases hasking

/-! ## What a stage may do -/

/-- `out` is `ms` with one summary in the place of the messages `dropped`. -/
structure Summarised (reserve : Nat) (ms out dropped kept : List Message) : Prop where
  list : ∃ id s, out = systemMessages ms ++ summaryMessages ms ++ [buildSummaryMessage id s] ++ kept
  cut : nonSystemMessages ms = dropped ++ kept
  dropped_ne_nil : dropped ≠ []
  length_kept : kept.length ≤ reserve
  head_kept : ∀ t ∈ kept.head?, t.isTool = false
  answered : CallsInFront kept

theorem summarised_replaceOld (h : ResultsPaired ms) (id : Nat) (s : Summary)
    (hold : oldMessages reserve ms ≠ []) :
    Summarised reserve ms (replaceOld id s reserve ms) (oldMessages reserve ms)
      (recentMessages reserve ms) where
  list := ⟨id, s, rfl⟩
  cut := (alignRecentBoundary_append (nonSystemMessages ms) reserve).symm
  dropped_ne_nil := hold
  length_kept := length_recentMessages_le reserve ms
  head_kept _ ht := h.head_recentMessages ht
  answered := h.callsInFront_recentMessages reserve

theorem oldMessages_ne_nil (h : reserve < (nonSystemMessages ms).length) :
    oldMessages reserve ms ≠ [] := by
  intro hnil
  have hcut : oldMessages reserve ms ++ recentMessages reserve ms = nonSystemMessages ms :=
    alignRecentBoundary_append (nonSystemMessages ms) reserve
  rw [hnil, List.nil_append] at hcut
  have hlength := length_recentMessages_le reserve ms
  rw [hcut] at hlength
  exact Nat.not_le_of_lt h hlength

/-- `compact` returns a list that is short, and replaces the old part of any other. -/
theorem compact_cases {outcome : SummaryOutcome}
    (h : ContextCompressor.compact id reserve outcome ms ms = .ok out) :
    ((nonSystemMessages ms).length ≤ reserve ∧ out = ms) ∨
      (reserve < (nonSystemMessages ms).length ∧ ∃ s, out = replaceOld id s reserve ms) := by
  unfold ContextCompressor.compact at h
  split at h
  · rename_i hlength
    exact Or.inl ⟨hlength, (Except.ok.inj h).symm⟩
  · rename_i hlength
    have hlength := Nat.lt_of_not_le hlength
    rw [if_neg (oldMessages_ne_nil hlength)] at h
    refine Or.inr ⟨hlength, ?_⟩
    cases outcome with
    | content text => exact ⟨_, (Except.ok.inj h).symm⟩
    | failed message => exact ⟨_, (Except.ok.inj h).symm⟩
    | unexpected message => exact ⟨_, (Except.ok.inj h).symm⟩
    | escaped message => cases h

/-- `summarize_archive` returns the list, or it replaces what it has written to the archive. -/
theorem summarizeArchive_cases {run : ArchiveRun} {file : Option ArchiveFile}
    (h : Level3.summarizeArchive dump id run ms = (file, .ok out)) :
    (file = none ∧ out = ms) ∨ (recentKeepCount < (nonSystemMessages ms).length ∧
      (∃ s, out = replaceOld id s recentKeepCount ms) ∧
      ∃ path, file = some (path, writeSessionArchive dump (oldMessages recentKeepCount ms))) := by
  unfold Level3.summarizeArchive at h
  split at h
  · obtain ⟨rfl, heq⟩ := Prod.mk.inj h
    exact Or.inl ⟨rfl, (Except.ok.inj heq).symm⟩
  · rename_i hlength
    dsimp only at h
    split at h
    · cases (Prod.mk.inj h).2
    · rename_i path hwritten
      obtain ⟨rfl, heq⟩ := Prod.mk.inj h
      refine Or.inr ⟨Nat.lt_of_not_le hlength, ?_, path, rfl⟩
      split at heq
      · exact ⟨_, (Except.ok.inj heq).symm⟩
      · exact ⟨_, (Except.ok.inj heq).symm⟩
      · cases heq
      · cases heq

/-- An error of the stage leaves the list alone, and so does a list that is too short. -/
theorem summarizeAndArchive_of_unwritten {due : Bool} {run : ArchiveRun}
    (h : (LayeredCompressor.summarizeAndArchive dump id due run ms ms).1 = none) :
    (LayeredCompressor.summarizeAndArchive dump id due run ms ms).2 = ms := by
  cases due with
  | false => rfl
  | true =>
    rcases hrun : Level3.summarizeArchive dump id run ms with ⟨file, result⟩
    cases result with
    | error message => simp [LayeredCompressor.summarizeAndArchive, hrun]
    | ok summarized =>
      simp only [LayeredCompressor.summarizeAndArchive, hrun, if_true] at h ⊢
      rcases summarizeArchive_cases hrun with ⟨-, hout⟩ | ⟨-, -, path, hfile⟩
      · exact hout
      · rw [h] at hfile
        cases hfile

/-! ## The stages are those of `Compaction` -/

theorem compact_refines {outcome : SummaryOutcome}
    (h : ContextCompressor.compact id reserve outcome ms ms = .ok out) :
    ∃ s fallback, out = compact id s fallback reserve ms := by
  rcases compact_cases h with ⟨hlength, rfl⟩ | ⟨-, s, rfl⟩
  · exact ⟨⟨"", "", ""⟩, false, by simp [compact, hlength]⟩
  · exact ⟨s, true, by simp [compact]⟩

theorem summarizeAndArchive_refines (dump : Message → List Char) (id : Nat) (due : Bool)
    (run : ArchiveRun) (ms : List Message) :
    ∃ summary, (LayeredCompressor.summarizeAndArchive dump id due run ms ms).2 =
      summarizeAndArchive id summary ms := by
  cases due with
  | false => exact ⟨none, rfl⟩
  | true =>
    rcases hrun : Level3.summarizeArchive dump id run ms with ⟨file, result⟩
    simp only [LayeredCompressor.summarizeAndArchive, hrun, if_true]
    cases result with
    | error message => exact ⟨none, rfl⟩
    | ok summarized =>
      rcases summarizeArchive_cases hrun with ⟨-, rfl⟩ | ⟨hlength, ⟨s, rfl⟩, -⟩
      · exact ⟨none, rfl⟩
      · exact ⟨some s, by simp [summarizeAndArchive, summarizeArchive, Nat.not_le_of_lt hlength]⟩

/-! ## Nothing is lost -/

/-- **A summary loses nothing.** Whatever a stage returns other than its
list has everything of it but what the one new summary stands for, and
`summarize_archive` has that in its file. -/
theorem summaries_lose_nothing (dump : Message → List Char) (id : Nat) (h : ResultsPaired ms)
    (hdump : ∀ m ∈ ms, '\n' ∉ dump m) :
    (∀ reserve outcome out, ContextCompressor.compact id reserve outcome ms ms = .ok out →
      out ≠ ms → ∃ dropped kept, Summarised reserve ms out dropped kept) ∧
    (∀ run file out, Level3.summarizeArchive dump id run ms = (file, .ok out) → out ≠ ms →
      ∃ dropped kept, Summarised recentKeepCount ms out dropped kept ∧
        ∃ path text, file = some (path, text) ∧ Text.fileLines text = dropped.map dump) ∧
    ∀ due run, (LayeredCompressor.summarizeAndArchive dump id due run ms ms).1 = none →
      (LayeredCompressor.summarizeAndArchive dump id due run ms ms).2 = ms := by
  refine ⟨?_, ?_, fun due run => summarizeAndArchive_of_unwritten⟩
  · intro reserve outcome out hcompact hne
    rcases compact_cases hcompact with ⟨-, rfl⟩ | ⟨hlength, s, rfl⟩
    · exact absurd rfl hne
    · exact ⟨_, _, summarised_replaceOld h id s (oldMessages_ne_nil hlength)⟩
  · intro run file out harchive hne
    rcases summarizeArchive_cases harchive with ⟨-, rfl⟩ | ⟨hlength, ⟨s, rfl⟩, path, rfl⟩
    · exact absurd rfl hne
    · have hold := oldMessages_ne_nil hlength
      have hlines : ∀ line ∈ (oldMessages recentKeepCount ms).map dump, '\n' ∉ line := by
        intro line hline
        obtain ⟨m, hm, rfl⟩ := List.mem_map.mp hline
        exact hdump m (oldMessages_subset recentKeepCount ms hm)
      exact ⟨_, _, summarised_replaceOld h id s hold, path, _, rfl,
        Text.fileLines_joinLines hlines (by simpa using hold)⟩

/-! ## A history with tools -/

def jsonList (items : List (List Char)) : List Char :=
  if items = [] then "null".toList else "[".toList ++ ",".toList.intercalate items ++ "]".toList

def callJson (c : ToolCall) : List Char :=
  "\x7b\"id\":\"".toList ++ c.id.toList ++ "\",\"name\":\"".toList ++ c.name.toList ++
    "\",\"arguments\":".toList ++ c.arguments.toList ++ "\x7d".toList

/-- A result without errors and artifacts. -/
def resultJson (r : ToolResult) : List Char :=
  "\x7b\"tool_call_id\":\"".toList ++ r.toolCallId.toList ++ "\",\"output\":\"".toList ++
    r.output.toList ++ "\",\"is_error\":false,\"diffs\":[],\"artifacts\":[]\x7d".toList

/-- A message as `model_dump_json` writes it, when its texts need no escapes. -/
def plainJson (m : Message) : List Char :=
  "\x7b\"id\":\"".toList ++ Nat.toDigits 10 m.id ++ "\",\"role\":\"".toList ++
    m.role.text.toList ++ "\",\"content\":\"".toList ++ m.content.toList ++
    "\",\"kind\":\"".toList ++
    (if m.kind = .summary then "summary" else "user_request").toList ++
    "\",\"ephemeral\":false,\"tool_calls\":".toList ++ jsonList (m.toolCalls.map callJson) ++
    ",\"tool_results\":".toList ++ jsonList (m.toolResults.map resultJson) ++
    ",\"timestamp\":\"2025-01-01T00:00:00\",\"provider_metadata\":\x7b\x7d\x7d".toList

/-- An assistant message that reads a file, and what it gets. -/
def reading (id : Nat) (callId : String) : List Message :=
  [{ id, role := .assistant, content := ""
     toolCalls := [{ id := callId, name := "Read", arguments := "\x7b\"path\":\"a\"\x7d" }] },
    .tool (id + 1) [{ toolCallId := callId, output := "text" }]]

/-- A system message, an earlier summary, and three calls. The last six
messages that are neither begin with the result of the second call. -/
def threeReadings : List Message :=
  { id := 0, role := .system, content := "You help." } ::
    { id := 1, role := .user, kind := .summary, content := "earlier" } ::
    .user 2 "q" :: (reading 3 "c1" ++ .user 5 "q" :: (reading 6 "c2" ++ .user 8 "q" ::
      (reading 9 "c3" ++ [.user 11 "q", { id := 12, role := .assistant, content := "done" }])))

theorem resultsPaired_threeReadings : ResultsPaired threeReadings := by
  have hreading : ∀ id callId rest, HistoryPaired rest →
      HistoryPaired (reading id callId ++ rest) := fun id callId rest hrest =>
    .pair rfl rfl (List.Perm.refl _) hrest
  have hpaired : HistoryPaired threeReadings :=
    .other rfl rfl (.other rfl rfl (.other rfl rfl (hreading 3 "c1" _ (.other rfl rfl
      (hreading 6 "c2" _ (.other rfl rfl (hreading 9 "c3" _
        (.other rfl rfl (.other rfl rfl .nil)))))))))
  exact hpaired.resultsPaired (by decide) (by decide)

/-- The result of the second call goes with its call, and the third call is kept. -/
theorem summaries_lose_nothing_threeReadings :
    ∃ out dropped kept path text,
      Level3.summarizeArchive plainJson 13 ⟨.ok "data/sessions/s/1.jsonl", .content "short"⟩
        threeReadings = (some (path, text), .ok out) ∧
      Summarised recentKeepCount threeReadings out dropped kept ∧
      dropped.map Message.id = [2, 3, 4, 5, 6, 7] ∧ kept.map Message.id = [8, 9, 10, 11, 12] ∧
      Text.fileLines text = dropped.map plainJson := by
  have hlength : ¬ (nonSystemMessages threeReadings).length ≤ recentKeepCount := by decide
  have hrun : Level3.summarizeArchive plainJson 13
      ⟨.ok "data/sessions/s/1.jsonl", .content "short"⟩ threeReadings =
        (some ("data/sessions/s/1.jsonl", writeSessionArchive plainJson
          (oldMessages recentKeepCount threeReadings)), .ok (replaceOld 13
            (archivedSummary (oldMessages recentKeepCount threeReadings)
              "data/sessions/s/1.jsonl" (requestedSummary "short")) recentKeepCount
            threeReadings)) := by
    rw [Level3.summarizeArchive, if_neg hlength]
  have hne : replaceOld 13 (archivedSummary (oldMessages recentKeepCount threeReadings)
      "data/sessions/s/1.jsonl" (requestedSummary "short")) recentKeepCount threeReadings ≠
        threeReadings := fun heq => absurd (congrArg List.length heq) (by decide)
  have hdump : ∀ m ∈ threeReadings, '\n' ∉ plainJson m := by decide +kernel
  obtain ⟨dropped, kept, hsummarised, path, text, hfile, hlines⟩ :=
    (summaries_lose_nothing plainJson 13 resultsPaired_threeReadings hdump).2.1 _ _ _ hrun hne
  have hkept : recentMessages recentKeepCount threeReadings = kept := by
    obtain ⟨id, s, hlist⟩ := hsummarised.list
    exact (List.append_inj hlist (by simp)).2
  have hdropped : oldMessages recentKeepCount threeReadings = dropped := by
    have hcut := hsummarised.cut
    rw [← alignRecentBoundary_append (nonSystemMessages threeReadings) recentKeepCount] at hcut
    exact List.append_cancel_right (hkept ▸ hcut)
  refine ⟨_, dropped, kept, path, text, hfile ▸ hrun, hsummarised, ?_, ?_, hlines⟩
  · rw [← hdropped]
    decide
  · rw [← hkept]
    decide

end NeuralHub.AgentLoop
