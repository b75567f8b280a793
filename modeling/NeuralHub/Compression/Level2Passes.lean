/-
NeuralHub.Compression.Level2Passes — what one pass of the archiving does,
and how the passes follow one another.

`candidates` are the results that can be archived, in their order. A pass
archives the first of them and changes nothing else (`archiveOldest_spec`),
and the stub that it leaves is none any more (`Pass`). So the results are
archived one after the other, the `n`-th one in the `n`-th pass, and the
loop takes no more passes than there are candidates.
-/
import NeuralHub.Compression.Level2

namespace NeuralHub.Compression

open NeuralHub.Lib
open NeuralHub.AgentLoop (Message ToolCall ToolResult)

variable {env : ArtifactEnv} {pass : Nat} {head messages : List Message} {files : ArtifactFiles}

/-! ## Candidates -/

def archivable (env : ArtifactEnv) (head : List Message) (result : ToolResult) : Bool :=
  shouldArchiveResult env result (callById head result.toolCallId)

/-- The results of a message that can be archived. -/
def messageCandidates (env : ArtifactEnv) (head : List Message) (message : Message) :
    List ToolResult :=
  if message.role = .tool then message.toolResults.filter (archivable env head) else []

def candidatesIn (env : ArtifactEnv) (head messages : List Message) : List ToolResult :=
  messages.flatMap (messageCandidates env head)

def headOf (messages : List Message) : List Message :=
  messages.take (messages.length - recentKeepCount)

/-- The results of a conversation that can be archived, the oldest first. -/
def candidates (env : ArtifactEnv) (messages : List Message) : List ToolResult :=
  candidatesIn env (headOf messages) (headOf messages)

theorem artifacts_of_archivable {result : ToolResult} (h : archivable env head result = true) :
    result.artifacts = [] ∧ 500 < tokenCount result.output := by
  unfold archivable shouldArchiveResult at h
  split at h
  · cases h
  · next hlarge =>
    split at h
    · cases h
    · next hnot => exact ⟨by_contra fun hne => hnot (Or.inl hne), Nat.lt_of_not_ge hlarge⟩

/-- A result that has an artifact is not archived again. -/
theorem not_archivable_stub (fl : FloatReading) (result : ToolResult) (path : String) :
    archivable env head (stub fl result path) = false := by
  rw [← Bool.not_eq_true]
  intro h
  have hnil := (artifacts_of_archivable h).1
  exact List.append_ne_nil_of_right_ne_nil _ (List.cons_ne_nil _ _) hnil

/-! ## One pass -/

/-- A result, and what stands around it. -/
structure Place where
  before : List Message
  message : Message
  after : List Message
  resultsBefore : List ToolResult
  result : ToolResult
  resultsAfter : List ToolResult

/-- The messages with this result in the place. -/
def Place.fill (place : Place) (result : ToolResult) : List Message :=
  place.before ++ { place.message with
    toolResults := place.resultsBefore ++ result :: place.resultsAfter } :: place.after

/-- The place of the first candidate. -/
structure Place.IsFirst (env : ArtifactEnv) (head : List Message) (place : Place) : Prop where
  role : place.message.role = .tool
  archivable : archivable env head place.result = true
  before : candidatesIn env head place.before = []
  resultsBefore : place.resultsBefore.filter (Compression.archivable env head) = []

theorem archiveResults_cons (result : ToolResult) (rest : List ToolResult) :
    archiveResults env pass head files (result :: rest) =
      if archivable env head result = true then
        (sinkToolResult env pass result files).map fun out => (out.1 :: rest, true, out.2)
      else (archiveResults env pass head files rest).map fun out => (result :: out.1, out.2) := rfl

theorem archiveResults_spec (env : ArtifactEnv) (pass : Nat) (head : List Message)
    (files : ArtifactFiles) (results : List ToolResult) :
    results.filter (archivable env head) = [] ∧
        archiveResults env pass head files results = some (results, false, files) ∨
      ∃ before result after, results = before ++ result :: after ∧
        before.filter (archivable env head) = [] ∧ archivable env head result = true ∧
        archiveResults env pass head files results =
          (sinkToolResult env pass result files).map fun out =>
            (before ++ out.1 :: after, true, out.2) := by
  induction results with
  | nil => exact Or.inl ⟨rfl, rfl⟩
  | cons result rest ih =>
    rw [archiveResults_cons]
    cases h : archivable env head result with
    | true =>
      rw [if_pos rfl]
      exact Or.inr ⟨[], result, rest, rfl, rfl, h, rfl⟩
    | false =>
      have hnot : ¬archivable env head result = true := Bool.eq_false_iff.mp h
      rw [if_neg Bool.false_ne_true, List.filter_cons_of_neg hnot]
      rcases ih with ⟨hnone, heq⟩ | ⟨before, found, after, rfl, hbefore, hfound, heq⟩
      · refine Or.inl ⟨hnone, ?_⟩
        rw [heq]
        rfl
      · refine Or.inr ⟨result :: before, found, after, rfl, ?_, hfound, ?_⟩
        · rwa [List.filter_cons_of_neg hnot]
        · rw [heq, Option.map_map]
          rfl

/-- A pass goes to the first candidate and changes nothing else. -/
theorem archiveOldest_spec (env : ArtifactEnv) (pass : Nat) (head : List Message)
    (files : ArtifactFiles) (messages : List Message) :
    candidatesIn env head messages = [] ∧
        archiveOldest env pass head files messages = some (messages, false, files) ∨
      ∃ place : Place, messages = place.fill place.result ∧ place.IsFirst env head ∧
        archiveOldest env pass head files messages =
          (sinkToolResult env pass place.result files).map fun out =>
            (place.fill out.1, true, out.2) := by
  induction messages with
  | nil => exact Or.inl ⟨rfl, rfl⟩
  | cons message rest ih =>
    -- a message without a candidate, whichever way it is passed over
    have hskip : ∀ (_ : messageCandidates env head message = [])
        (_ : archiveOldest env pass head files (message :: rest) =
          (archiveOldest env pass head files rest).map fun out => (message :: out.1, out.2)),
        candidatesIn env head (message :: rest) = [] ∧
            archiveOldest env pass head files (message :: rest) =
              some (message :: rest, false, files) ∨
          ∃ place : Place, message :: rest = place.fill place.result ∧ place.IsFirst env head ∧
            archiveOldest env pass head files (message :: rest) =
              (sinkToolResult env pass place.result files).map fun out =>
                (place.fill out.1, true, out.2) := by
      intro hnone heq
      rcases ih with ⟨hrest, hrun⟩ | ⟨place, rfl, hfirst, hrun⟩
      · refine Or.inl ⟨?_, by rw [heq, hrun]; rfl⟩
        rw [candidatesIn, List.flatMap_cons, hnone]
        exact hrest
      · refine Or.inr ⟨{ place with before := message :: place.before }, rfl,
          ⟨hfirst.role, hfirst.archivable, ?_, hfirst.resultsBefore⟩, ?_⟩
        · show candidatesIn env head (message :: place.before) = []
          rw [candidatesIn, List.flatMap_cons, hnone]
          exact hfirst.before
        · rw [heq, hrun, Option.map_map]
          rfl
    by_cases hother : message.role ≠ .tool ∨ message.toolResults = []
    · refine hskip ?_ (by rw [archiveOldest, if_pos hother])
      unfold messageCandidates
      rcases hother with hrole | hnil
      · exact if_neg hrole
      · rw [hnil, List.filter_nil, ite_self]
    · have hrole : message.role = .tool := by_contra fun hrole => hother (Or.inl hrole)
      rcases archiveResults_spec env pass head files message.toolResults with
        ⟨hnone, heq⟩ | ⟨before, result, after, hresults, hbefore, hfound, heq⟩
      · refine hskip ?_ (by rw [archiveOldest, if_neg hother, heq])
        rw [messageCandidates, if_pos hrole, hnone]
      · refine Or.inr ⟨⟨[], message, rest, before, result, after⟩, ?_,
          ⟨hrole, hfound, rfl, hbefore⟩, ?_⟩
        · rw [Place.fill, ← hresults]
          rfl
        · rw [archiveOldest, if_neg hother, heq]
          cases sinkToolResult env pass result files with
          | none => rfl
          | some out => rfl

/-! ## The place of a result -/

def Place.later (env : ArtifactEnv) (head : List Message) (place : Place) : List ToolResult :=
  place.resultsAfter.filter (archivable env head) ++ candidatesIn env head place.after

theorem candidatesIn_fill {place : Place} (h : place.IsFirst env head) (result : ToolResult) :
    candidatesIn env head (place.fill result) =
      (if archivable env head result then [result] else []) ++ place.later env head := by
  have hmessage : messageCandidates env head { place.message with
      toolResults := place.resultsBefore ++ result :: place.resultsAfter } =
      (place.resultsBefore ++ result :: place.resultsAfter).filter (archivable env head) :=
    if_pos h.role
  have hbefore : place.before.flatMap (messageCandidates env head) = [] := h.before
  rw [candidatesIn, Place.fill, List.flatMap_append, List.flatMap_cons, hmessage, hbefore,
    List.filter_append, h.resultsBefore, List.nil_append, List.nil_append, Place.later,
    List.filter_cons]
  split
  · rfl
  · rfl

theorem length_fill (place : Place) (result : ToolResult) :
    (place.fill result).length = place.before.length + place.after.length + 1 := by
  rw [Place.fill, List.length_append, List.length_cons, Nat.add_assoc]

/-- What is called is not changed. -/
theorem toolCalls_fill (place : Place) (result other : ToolResult) :
    (place.fill result).flatMap (·.toolCalls) = (place.fill other).flatMap (·.toolCalls) := by
  unfold Place.fill
  rw [List.flatMap_append, List.flatMap_append, List.flatMap_cons, List.flatMap_cons]

theorem callById_congr {ms ms' : List Message}
    (h : ms.flatMap (·.toolCalls) = ms'.flatMap (·.toolCalls)) (id : String) :
    callById ms id = callById ms' id := by
  unfold callById
  rw [h]

theorem archivable_congr {ms ms' : List Message}
    (h : ms.flatMap (·.toolCalls) = ms'.flatMap (·.toolCalls)) :
    archivable env ms = archivable env ms' := by
  funext result
  unfold archivable
  rw [callById_congr h]

theorem candidatesIn_congr {ms ms' : List Message}
    (h : ms.flatMap (·.toolCalls) = ms'.flatMap (·.toolCalls)) (messages : List Message) :
    candidatesIn env ms messages = candidatesIn env ms' messages := by
  unfold candidatesIn messageCandidates
  rw [archivable_congr h]

theorem tokens_fill (place : Place) (result other : ToolResult) :
    estimateMessagesTokens (place.fill result) + estimateTokens other.output =
      estimateMessagesTokens (place.fill other) + estimateTokens result.output := by
  unfold estimateMessagesTokens Place.fill
  simp only [List.map_append, List.map_cons, List.sum_append, List.sum_cons,
    estimateMessageTokens]
  omega

/-! ## A whole pass -/

/-- The text that is written to the artifact in this pass; `none` if the write raises. -/
def written (env : ArtifactEnv) (pass : Nat) (result : ToolResult) : Option (List Char) :=
  if env.writeFails pass then none else writeArtifact env.floats result.output.toList

theorem sinkToolResult_eq {result : ToolResult} (h : 500 < tokenCount result.output)
    (pass : Nat) (files : ArtifactFiles) :
    sinkToolResult env pass result files = (written env pass result).map fun text =>
      (stub env.floats result (artifactPath env pass result),
        files.set (artifactPath env pass result) text) := by
  rw [sinkToolResult, if_neg (Nat.not_le_of_lt h), written]
  split
  · rfl
  · rfl

/-- A message with other results. -/
structure MessageKept (R : ToolResult → ToolResult → Prop) (old new : Message) : Prop where
  same : new = { old with toolResults := new.toolResults }
  results : List.Forall₂ R old.toolResults new.toolResults

/-- The pass puts the stub into the place of the first candidate. -/
def Replaces (result new : ToolResult) (x y : ToolResult) : Prop :=
  y = x ∨ x = result ∧ y = new

/-- What a pass that archives `result` makes of the conversation. -/
structure Pass (env : ArtifactEnv) (messages : List Message) (result new : ToolResult)
    (after : List Message) : Prop where
  candidates : candidates env messages = result :: Compression.candidates env after
  kept : List.Forall₂ (MessageKept (Replaces result new)) messages after
  recent : after.drop (messages.length - recentKeepCount) =
    messages.drop (messages.length - recentKeepCount)
  tokens : estimateMessagesTokens after + estimateTokens result.output =
    estimateMessagesTokens messages + estimateTokens new.output

theorem forall₂_replaces_refl (result new : ToolResult) (results : List ToolResult) :
    List.Forall₂ (Replaces result new) results results :=
  List.forall₂_same.mpr fun _ _ => Or.inl rfl

theorem messageKept_refl (result new : ToolResult) (messages : List Message) :
    List.Forall₂ (MessageKept (Replaces result new)) messages messages :=
  List.forall₂_same.mpr fun _ _ => ⟨rfl, forall₂_replaces_refl result new _⟩

theorem forall₂_append {α β : Type} {R : α → β → Prop} {as cs : List α} {bs ds : List β}
    (h : List.Forall₂ R as bs) (h' : List.Forall₂ R cs ds) :
    List.Forall₂ R (as ++ cs) (bs ++ ds) := by
  induction h with
  | nil => exact h'
  | cons hab _ ih => exact List.Forall₂.cons hab ih

theorem kept_fill (place : Place) (new : ToolResult) :
    List.Forall₂ (MessageKept (Replaces place.result new)) (place.fill place.result)
      (place.fill new) := by
  refine forall₂_append (messageKept_refl _ _ _) (List.Forall₂.cons ⟨rfl, ?_⟩
    (messageKept_refl _ _ _))
  exact forall₂_append (forall₂_replaces_refl _ _ _)
    (List.Forall₂.cons (Or.inr ⟨rfl, rfl⟩) (forall₂_replaces_refl _ _ _))

theorem pass_fill {tail : List Message} {place : Place} {new : ToolResult}
    (hlength : tail.length = recentKeepCount)
    (hfirst : place.IsFirst env (place.fill place.result))
    (hnew : ∀ head, archivable env head new = false) :
    Pass env (place.fill place.result ++ tail) place.result new (place.fill new ++ tail) := by
  have hhead : ∀ result, headOf (place.fill result ++ tail) = place.fill result := by
    intro result
    rw [headOf, List.length_append, hlength, Nat.add_sub_cancel, List.take_left']
    rfl
  have hcalls := toolCalls_fill place new place.result
  constructor
  · rw [candidates, candidates, hhead, hhead, candidatesIn_fill hfirst, if_pos hfirst.archivable,
      candidatesIn_congr hcalls, candidatesIn_fill hfirst, if_neg (by rw [hnew]; exact nofun)]
    rfl
  · exact forall₂_append (kept_fill place new) (messageKept_refl _ _ _)
  · rw [List.length_append, hlength, Nat.add_sub_cancel, List.drop_left' rfl,
      List.drop_left' (by rw [length_fill, length_fill])]
  · have htokens := tokens_fill place new place.result
    unfold estimateMessagesTokens at htokens ⊢
    rw [List.map_append, List.map_append, List.sum_append, List.sum_append]
    omega

/-- **A pass**: there is nothing to archive, or the first candidate is archived, or its
write raises. -/
theorem compactOldest_spec (env : ArtifactEnv) (pass : Nat) (files : ArtifactFiles)
    (messages : List Message) :
    candidates env messages = [] ∧
        compactOldestLargeToolResult env pass files messages = some (messages, false, files) ∨
      ∃ result after,
        Pass env messages result (stub env.floats result (artifactPath env pass result)) after ∧
        archivable env (headOf messages) result = true ∧
        compactOldestLargeToolResult env pass files messages =
          (written env pass result).map fun text =>
            (after, true, files.set (artifactPath env pass result) text) := by
  unfold compactOldestLargeToolResult
  by_cases hshort : messages.length ≤ recentKeepCount
  · rw [if_pos hshort]
    refine Or.inl ⟨?_, rfl⟩
    rw [candidates, headOf, Nat.sub_eq_zero_of_le hshort, List.take_zero]
    rfl
  · rw [if_neg hshort]
    simp only
    rcases archiveOldest_spec env pass (headOf messages) files (headOf messages) with
      ⟨hnone, hrun⟩ | ⟨place, hplace, hfirst, hrun⟩
    · refine Or.inl ⟨hnone, ?_⟩
      unfold headOf at hrun
      rw [hrun, Option.map_some, List.take_append_drop]
    · have hsplit : messages = place.fill place.result ++
          messages.drop (messages.length - recentKeepCount) := by
        rw [← hplace, headOf, List.take_append_drop]
      have hlength : (messages.drop (messages.length - recentKeepCount)).length =
          recentKeepCount := by
        rw [List.length_drop]
        omega
      generalize htail : messages.drop (messages.length - recentKeepCount) = tail at *
      have hpass := pass_fill hlength (hplace ▸ hfirst) fun head =>
        not_archivable_stub env.floats place.result (artifactPath env pass place.result)
      rw [← hsplit] at hpass
      refine Or.inr ⟨place.result, _, hpass, hfirst.archivable, ?_⟩
      unfold headOf at hrun
      rw [hrun, sinkToolResult_eq (artifacts_of_archivable hfirst.archivable).2, Option.map_map,
        Option.map_map]
      rfl

end NeuralHub.Compression
