/-
NeuralHub.AgentLoop.SignedResults — which execution a merged result comes
from.

The signed calls of a response are split, executed in two orders and
joined again by call id. To say that the k-th result is the one the k-th
call produced, results are followed together with the sequence number of
the signed call whose execution made them (`Produced`); without the
numbers these are the functions of `ToolPhase` (`signedResults_eq`).
Calls of different sequence numbers do not disturb each other's
verification, so execution finds the result of every call
(`producedResults_eq`); the dictionary of `mergeResults` gives each call
its own result exactly when no two calls share an id
(`signed_results_in_order_iff`).
-/
import NeuralHub.AgentLoop.ToolPhaseTheorems
import Mathlib.Data.List.Nodup

namespace NeuralHub.AgentLoop

open NeuralHub.Lib

variable {sign : Sign} {definitions tools : List ToolDefinition} {g g' : SecurityGate}
  {c c' : SignedToolCall} {calls : List SignedToolCall} {outcome : SignedToolCall → Outcome}

/-! ## Results with their calls -/

/-- A result, and the sequence number of the signed call whose execution
made it. -/
structure Produced where
  sequence : Nat
  result : ToolResult
  deriving DecidableEq, Repr

/-- What `execute_signed` makes of one call; `none` is a `CancelledError`. -/
def produce (sign : Sign) (tools : List ToolDefinition) (outcome : SignedToolCall → Outcome)
    (g : SecurityGate) (c : SignedToolCall) : Option Produced :=
  (executeSigned sign tools g c (outcome c)).2.map fun result => { sequence := c.sequence, result }

/-- `executeEach`, with the call of every result. -/
def producedEach (sign : Sign) (tools : List ToolDefinition) (outcome : SignedToolCall → Outcome) :
    SecurityGate → List (SignedToolCall × Nat) → SecurityGate × List (Nat × Option Produced)
  | g, [] => (g, [])
  | g, (c, index) :: rest =>
      let out := producedEach sign tools outcome (executeSigned sign tools g c (outcome c)).1 rest
      (out.1, (index, produce sign tools outcome g c) :: out.2)

/-- `execute_signed_batch`, with the call of every result. -/
def producedBatch (sign : Sign) (tools : List ToolDefinition) (outcome : SignedToolCall → Outcome)
    (g : SecurityGate) (calls : List SignedToolCall) : SecurityGate × List (Option Produced) :=
  let out := producedEach sign tools outcome g (bySequence calls)
  (out.1, (List.range calls.length).filterMap fun index => out.2.lookup index)

/-- `executeSerially`, with the call of every result. -/
def producedSerially (sign : Sign) (tools : List ToolDefinition)
    (outcome : SignedToolCall → Outcome) : SecurityGate → List SignedToolCall →
      Option (List Produced)
  | _, [] => some []
  | g, c :: rest =>
      (produce sign tools outcome g c).bind fun p =>
        (producedSerially sign tools outcome (executeSigned sign tools g c (outcome c)).1 rest).map
          (p :: ·)

/-- `execute_signed_serial`, with the call of every result. -/
def producedSerial (sign : Sign) (tools : List ToolDefinition) (outcome : SignedToolCall → Outcome)
    (g : SecurityGate) (calls : List SignedToolCall) : Option (List Produced) :=
  producedSerially sign tools outcome g
    (calls.insertionSort fun a b => a.sequence ≤ b.sequence)

def producedById (results : List Produced) (id : String) : Option Produced :=
  results.reverse.find? (·.result.toolCallId == id)

/-- `merge_results`, with the call of every result. -/
def mergeProduced (readResults : List (Option Produced)) (writeResults : List Produced)
    (calls : List SignedToolCall) : Option (List Produced) :=
  if readResults.all (·.isSome) then
    some (calls.filterMap fun c =>
      producedById (readResults.filterMap id ++ writeResults) c.toolCall.id)
  else none

/-- The signed calls of one response, executed and merged. `definitions` is
what the calls are split by, `tools` the registry of the executor. -/
def producedResults (sign : Sign) (definitions tools : List ToolDefinition)
    (outcome : SignedToolCall → Outcome) (g : SecurityGate) (calls : List SignedToolCall) :
    Option (List Produced) :=
  let parts := partitionBySideEffect calls definitions
  let readResults := producedBatch sign tools outcome g parts.1
  (producedSerial sign tools outcome readResults.1 parts.2).bind fun writeResults =>
    mergeProduced readResults.2 writeResults calls

/-- The same without the numbers, as `run_agent_loop` has it. -/
def signedResults (sign : Sign) (definitions tools : List ToolDefinition)
    (outcome : SignedToolCall → Outcome) (g : SecurityGate) (calls : List SignedToolCall) :
    Option (List ToolResult) :=
  let parts := partitionBySideEffect calls definitions
  let readResults := executeSignedBatch sign tools g parts.1
    ((bySequence parts.1).map fun x => outcome x.1)
  let writeResults := executeSignedSerial sign tools readResults.1 parts.2
    ((parts.2.insertionSort fun a b => a.sequence ≤ b.sequence).map outcome)
  writeResults.2.bind fun writeResults => mergeResults readResults.2 writeResults calls

/-! ## Without the numbers -/

theorem executeEach_eq_producedEach (work : List (SignedToolCall × Nat)) (g : SecurityGate) :
    executeEach sign tools g (work.zip (work.map fun x => outcome x.1)) =
      ((producedEach sign tools outcome g work).1,
        (producedEach sign tools outcome g work).2.map
          (Prod.map id (Option.map Produced.result))) := by
  induction work generalizing g with
  | nil => rfl
  | cons x rest ih =>
    obtain ⟨c, index⟩ := x
    have hresult : (produce sign tools outcome g c).map Produced.result =
        (executeSigned sign tools g c (outcome c)).2 := by
      simp [produce, Function.comp_def]
    simp only [List.map_cons, List.zip_cons_cons, executeEach, producedEach, ih, Prod.map_apply,
      id, hresult]

theorem lookup_map_result (results : List (Nat × Option Produced)) (index : Nat) :
    (results.map (Prod.map id (Option.map Produced.result))).lookup index =
      (results.lookup index).map (Option.map Produced.result) := by
  induction results with
  | nil => rfl
  | cons x rest ih =>
    obtain ⟨key, p⟩ := x
    simp only [List.map_cons, Prod.map_apply, id, List.lookup_cons]
    split
    · rfl
    · exact ih

theorem executeSignedBatch_eq_producedBatch (g : SecurityGate) (calls : List SignedToolCall) :
    executeSignedBatch sign tools g calls ((bySequence calls).map fun x => outcome x.1) =
      ((producedBatch sign tools outcome g calls).1,
        (producedBatch sign tools outcome g calls).2.map (Option.map Produced.result)) := by
  simp only [executeSignedBatch, producedBatch, executeEach_eq_producedEach, lookup_map_result,
    List.map_filterMap]

theorem executeSerially_eq_producedSerially (calls : List SignedToolCall) (g : SecurityGate) :
    (executeSerially sign tools g (calls.zip (calls.map outcome))).2 =
      (producedSerially sign tools outcome g calls).map (List.map Produced.result) := by
  induction calls generalizing g with
  | nil => rfl
  | cons c rest ih =>
    simp only [List.map_cons, List.zip_cons_cons, executeSerially, producedSerially, produce]
    rcases executeSigned sign tools g c (outcome c) with ⟨g₁, _ | r⟩
    · rfl
    · simp only [Option.map_some, Option.bind_some, Option.map_map]
      rw [ih, Option.map_map]
      rfl

theorem mergeResults_eq_mergeProduced (readResults : List (Option Produced))
    (writeResults : List Produced) (calls : List SignedToolCall) :
    mergeResults (readResults.map (Option.map Produced.result))
        (writeResults.map Produced.result) calls =
      (mergeProduced readResults writeResults calls).map (List.map Produced.result) := by
  have hall : (readResults.map (Option.map Produced.result)).all (·.isSome) =
      readResults.all (·.isSome) := by
    simp [List.all_map, Function.comp_def]
  have hread : (readResults.map (Option.map Produced.result)).filterMap id =
      (readResults.filterMap id).map Produced.result := by
    rw [List.filterMap_map, List.map_filterMap]
    rfl
  have hfind : ∀ (results : List Produced) (id : String),
      resultById (results.map Produced.result) id =
        (producedById results id).map Produced.result := by
    intro results id
    rw [resultById, producedById, ← List.map_reverse, List.find?_map]
    rfl
  unfold mergeResults mergeProduced
  rw [hall, hread, ← List.map_append]
  split
  · simp only [hfind, Option.map_some, List.map_filterMap]
  · rfl

/-- Without the numbers the results are those of `run_agent_loop`. -/
theorem signedResults_eq :
    signedResults sign definitions tools outcome g calls =
      (producedResults sign definitions tools outcome g calls).map (List.map Produced.result) := by
  simp only [signedResults, producedResults, executeSignedBatch_eq_producedBatch,
    executeSignedSerial, executeSerially_eq_producedSerially, producedSerial]
  rw [Option.map_bind, Option.bind_map]
  simp only [Function.comp_def, mergeResults_eq_mergeProduced]

/-! ## Verification of different sequence numbers -/

/-- Both gates accept the call, or neither does. -/
def SameVerdict (sign : Sign) (g g' : SecurityGate) (c : SignedToolCall) : Prop :=
  (g.verify sign c).2 = (g'.verify sign c).2

theorem executeSigned_fst (sign : Sign) (tools : List ToolDefinition) (g : SecurityGate)
    (c : SignedToolCall) (o : Outcome) :
    (executeSigned sign tools g c o).1 = (g.verify sign c).1 := by
  unfold executeSigned
  split <;> simp_all

theorem executeSigned_snd (sign : Sign) (tools : List ToolDefinition) (g : SecurityGate)
    (c : SignedToolCall) (o : Outcome) :
    (executeSigned sign tools g c o).2 =
      if (g.verify sign c).2 then execute tools c.toolCall o
      else some (errorResult c.toolCall "HMAC verification failed") := by
  unfold executeSigned
  split <;> simp_all

/-- A call leaves the verdict on other sequence numbers alone. -/
theorem sameVerdict_executeSigned (o : Outcome) (h : c'.sequence ≠ c.sequence) :
    SameVerdict sign (executeSigned sign tools g c o).1 g c' := by
  rw [SameVerdict, executeSigned_fst]
  simp only [SecurityGate.verify]
  split
  · simp [h, apply_ite Prod.snd]
  · rfl

theorem SameVerdict.trans {g₁ g₂ g₃ : SecurityGate} (h₁ : SameVerdict sign g₁ g₂ c)
    (h₂ : SameVerdict sign g₂ g₃ c) : SameVerdict sign g₁ g₃ c := Eq.trans h₁ h₂

theorem SameVerdict.produce_eq (h : SameVerdict sign g g' c) :
    produce sign tools outcome g c = produce sign tools outcome g' c := by
  rw [produce, produce, executeSigned_snd, executeSigned_snd, h]

/-- In a list of different sequence numbers every call produces what it
would produce alone, and calls of other numbers notice nothing. -/
theorem producedEach_eq (sign : Sign) (tools : List ToolDefinition)
    (outcome : SignedToolCall → Outcome) (g : SecurityGate) {work : List (SignedToolCall × Nat)}
    (h : (work.map (·.1.sequence)).Nodup) :
    (producedEach sign tools outcome g work).2 =
        work.map (fun x => (x.2, produce sign tools outcome g x.1)) ∧
      ∀ c : SignedToolCall, c.sequence ∉ work.map (·.1.sequence) →
        SameVerdict sign (producedEach sign tools outcome g work).1 g c := by
  induction work generalizing g with
  | nil => exact ⟨rfl, fun _ _ => rfl⟩
  | cons x rest ih =>
    obtain ⟨c, index⟩ := x
    rw [List.map_cons, List.nodup_cons] at h
    obtain ⟨hresults, hgate⟩ := ih (executeSigned sign tools g c (outcome c)).1 h.2
    refine ⟨?_, fun c' hc' => ?_⟩
    · simp only [producedEach, hresults, List.map_cons, List.cons.injEq, true_and]
      refine List.map_congr_left fun x hx => ?_
      have hne : x.1.sequence ≠ c.sequence := fun heq =>
        h.1 (heq ▸ List.mem_map_of_mem hx)
      rw [(sameVerdict_executeSigned (outcome c) hne).produce_eq]
    · rw [List.map_cons, List.mem_cons, not_or] at hc'
      exact (hgate c' hc'.2).trans (sameVerdict_executeSigned (outcome c) hc'.1)

theorem map_sequence_bySequence_perm (calls : List SignedToolCall) :
    ((bySequence calls).map (·.1.sequence)).Perm (calls.map (·.sequence)) := by
  have hperm := (List.perm_insertionSort
    (fun a b : SignedToolCall × Nat => a.1.sequence ≤ b.1.sequence) calls.zipIdx).map (·.1.sequence)
  have hzip : calls.zipIdx.map (·.1.sequence) = calls.map (·.sequence) := by
    have hmap := congrArg (List.map (·.sequence)) (List.zipIdx_map_fst 0 calls)
    rwa [List.map_map] at hmap
  rwa [hzip] at hperm

theorem lookup_of_mem {α β : Type} [BEq α] [LawfulBEq α] {entries : List (α × β)} {k : α} {v : β}
    (hnodup : (entries.map Prod.fst).Nodup) (h : (k, v) ∈ entries) :
    entries.lookup k = some v := by
  obtain ⟨pre, post, rfl⟩ := List.append_of_mem h
  rw [List.lookup_eq_some_iff]
  refine ⟨pre, post, rfl, fun x hx => ?_⟩
  rw [List.map_append, List.map_cons, List.nodup_append] at hnodup
  have hne := hnodup.2.2 x.1 (List.mem_map_of_mem hx) k List.mem_cons_self
  simpa using hne.symm

theorem filterMap_range_getElem? {α : Type} (xs : List α) :
    (List.range xs.length).filterMap (fun index => xs[index]?) = xs := by
  induction xs with
  | nil => rfl
  | cons x xs ih =>
    rw [List.length_cons, List.range_succ_eq_map, List.filterMap_cons, List.filterMap_map]
    simp only [List.getElem?_cons_zero, Function.comp_def, List.getElem?_cons_succ]
    rw [ih]

/-- A batch returns the results of its calls, in their order. -/
theorem producedBatch_eq (sign : Sign) (tools : List ToolDefinition)
    (outcome : SignedToolCall → Outcome) (g : SecurityGate)
    (h : (calls.map (·.sequence)).Nodup) :
    (producedBatch sign tools outcome g calls).2 = calls.map (produce sign tools outcome g) ∧
      ∀ c : SignedToolCall, c.sequence ∉ calls.map (·.sequence) →
        SameVerdict sign (producedBatch sign tools outcome g calls).1 g c := by
  have hperm := map_sequence_bySequence_perm calls
  obtain ⟨hresults, hgate⟩ := producedEach_eq sign tools outcome g (hperm.nodup_iff.mpr h)
  refine ⟨?_, fun c hc => hgate c (fun hmem => hc (hperm.mem_iff.mp hmem))⟩
  have hkeys : (((bySequence calls).map
      (fun x => (x.2, produce sign tools outcome g x.1))).map Prod.fst).Nodup := by
    have hindices := ((List.perm_insertionSort
      (fun a b : SignedToolCall × Nat => a.1.sequence ≤ b.1.sequence) calls.zipIdx).map
        Prod.snd).nodup_iff.mpr (by rw [List.zipIdx_map_snd]; exact List.nodup_range')
    rw [List.map_map]
    exact hindices
  have hlookup : ∀ index ∈ List.range calls.length,
      (producedEach sign tools outcome g (bySequence calls)).2.lookup index =
        (calls.map (produce sign tools outcome g))[index]? := by
    intro index hindex
    have hget := List.getElem?_eq_getElem (List.mem_range.mp hindex)
    rw [hresults, List.getElem?_map, hget]
    exact lookup_of_mem hkeys (List.mem_map.mpr ⟨_, mem_bySequence.mpr hget, rfl⟩)
  have hall := filterMap_range_getElem? (calls.map (produce sign tools outcome g))
  rw [List.length_map] at hall
  rw [← hall]
  exact List.filterMap_congr hlookup

/-- One call after the other gives the results in the order of execution. -/
theorem producedSerially_eq (sign : Sign) (tools : List ToolDefinition)
    (outcome : SignedToolCall → Outcome) {p : SignedToolCall → Produced}
    (h : (calls.map (·.sequence)).Nodup)
    (hp : ∀ c ∈ calls, produce sign tools outcome g c = some (p c)) :
    producedSerially sign tools outcome g calls = some (calls.map p) := by
  induction calls generalizing g with
  | nil => rfl
  | cons c rest ih =>
    rw [List.map_cons, List.nodup_cons] at h
    have hrest : ∀ c' ∈ rest, produce sign tools outcome
        (executeSigned sign tools g c (outcome c)).1 c' = some (p c') := by
      intro c' hc'
      have hne : c'.sequence ≠ c.sequence := fun heq => h.1 (heq ▸ List.mem_map_of_mem hc')
      rw [(sameVerdict_executeSigned (outcome c) hne).produce_eq]
      exact hp c' (List.mem_cons_of_mem c hc')
    rw [producedSerially, hp c List.mem_cons_self, Option.bind_some, ih h.2 hrest]
    rfl

/-! ## Merging by id -/

theorem toolCallId_produce {p : Produced} (h : produce sign tools outcome g c = some p) :
    p.result.toolCallId = c.toolCall.id := by
  obtain ⟨r, hr, rfl⟩ := Option.map_eq_some_iff.mp h
  exact toolCallId_executeSigned (Prod.ext rfl hr)

theorem sequence_produce {p : Produced} (h : produce sign tools outcome g c = some p) :
    p.sequence = c.sequence := by
  obtain ⟨r, -, rfl⟩ := Option.map_eq_some_iff.mp h
  rfl

/-- A call produces a result unless its tool runs and is cancelled. -/
theorem produce_ne_none_iff :
    produce sign tools outcome g c ≠ none ↔
      ((g.verify sign c).2 = true → (getTool tools c.toolCall.name).isSome = true →
        outcome c ≠ .cancelled) := by
  rw [produce, executeSigned_snd, ne_eq, Option.map_eq_none_iff]
  split
  · rename_i haccepted
    rw [forall_prop_of_true haccepted]
    unfold execute
    cases getTool tools c.toolCall.name with
    | none => simp
    | some tool => cases outcome c <;> simp
  · rename_i hrejected
    simp [hrejected]

theorem exists_produced (h : ∀ c ∈ calls, produce sign tools outcome g c ≠ none) :
    ∃ p : SignedToolCall → Produced, ∀ c ∈ calls, produce sign tools outcome g c = some (p c) := by
  refine ⟨fun c => (produce sign tools outcome g c).getD
    { sequence := c.sequence, result := errorResult c.toolCall "" }, fun c hc => ?_⟩
  exact (Option.getD_of_ne_none (h c hc) _).symm

/-- The results found under the ids of the calls, when every call produces
one: they are looked up among exactly these results. -/
theorem producedResults_eq (definitions : List ToolDefinition) {p : SignedToolCall → Produced}
    (hsequences : (calls.map (·.sequence)).Nodup)
    (hp : ∀ c ∈ calls, produce sign tools outcome g c = some (p c)) :
    ∃ results : List Produced, results.Perm (calls.map p) ∧
      producedResults sign definitions tools outcome g calls =
        some (calls.filterMap fun c => producedById results c.toolCall.id) := by
  obtain ⟨reads, writes, hparts⟩ : ∃ reads writes,
      partitionBySideEffect calls definitions = (reads, writes) := ⟨_, _, rfl⟩
  have hperm : (reads ++ writes).Perm calls := by
    rw [partitionBySideEffect, List.partition_eq_filter_filter] at hparts
    obtain ⟨rfl, rfl⟩ := Prod.mk.inj hparts
    exact List.filter_append_perm _ calls
  have hnodup := (hperm.map (·.sequence)).nodup_iff.mpr hsequences
  rw [List.map_append, List.nodup_append] at hnodup
  obtain ⟨hreads, hwrites, hdisjoint⟩ := hnodup
  have hreadResults : reads.map (produce sign tools outcome g) = reads.map (some ∘ p) :=
    List.map_congr_left fun c hc => hp c (hperm.mem_iff.mp (List.mem_append_left writes hc))
  obtain ⟨hbatch, hgate⟩ := producedBatch_eq sign tools outcome g hreads
  rw [hreadResults] at hbatch
  have hsort := List.perm_insertionSort
    (fun a b : SignedToolCall => a.sequence ≤ b.sequence) writes
  have hserial : producedSerial sign tools outcome (producedBatch sign tools outcome g reads).1
      writes = some ((writes.insertionSort fun a b => a.sequence ≤ b.sequence).map p) := by
    refine producedSerially_eq sign tools outcome
      ((hsort.map (·.sequence)).nodup_iff.mpr hwrites) fun c hc => ?_
    have hmem : c ∈ writes := hsort.mem_iff.mp hc
    have hnot : c.sequence ∉ reads.map (·.sequence) := fun hread =>
      hdisjoint _ hread _ (List.mem_map_of_mem hmem) rfl
    rw [(hgate c hnot).produce_eq]
    exact hp c (hperm.mem_iff.mp (List.mem_append_right reads hmem))
  refine ⟨reads.map p ++ (writes.insertionSort fun a b => a.sequence ≤ b.sequence).map p, ?_, ?_⟩
  · have hall := (hsort.append_left reads).trans hperm
    have hmap := hall.map p
    rwa [List.map_append] at hmap
  · have hsome : (reads.map (some ∘ p)).all (·.isSome) = true := by simp
    have hvalues : (reads.map (some ∘ p)).filterMap id = reads.map p := by
      rw [List.filterMap_map]
      exact congrFun List.filterMap_eq_map reads
    unfold producedResults
    rw [hparts]
    dsimp only
    rw [hserial, Option.bind_some, mergeProduced, hbatch, if_pos hsome, hvalues]

theorem producedById_isSome {results : List Produced} {r : Produced} (h : r ∈ results) :
    (producedById results r.result.toolCallId).isSome = true := by
  rw [producedById, List.find?_isSome]
  exact ⟨r, List.mem_reverse.mpr h, by simp⟩

theorem producedById_some {results : List Produced} {id : String} {r : Produced}
    (h : producedById results id = some r) : r ∈ results ∧ r.result.toolCallId = id := by
  refine ⟨List.mem_reverse.mp (List.mem_of_find?_eq_some h), ?_⟩
  simpa using List.find?_some h

/-- Looking up every call finds its own result exactly when no two calls
share an id. -/
theorem own_result_by_id_iff {p : SignedToolCall → Produced} {results : List Produced}
    (hsequences : (calls.map (·.sequence)).Nodup) (hresults : results.Perm (calls.map p))
    (hp : ∀ c ∈ calls, produce sign tools outcome g c = some (p c)) :
    (∀ c ∈ calls, producedById results c.toolCall.id = some (p c)) ↔ (signedIds calls).Nodup := by
  constructor
  · intro hown
    refine List.Nodup.map_on ?_ (List.Nodup.of_map _ hsequences)
    intro c hc c' hc' hid
    -- two calls of one id find the same result, which carries one sequence number
    have hsame : p c = p c' := by
      have hfind := hown c hc
      rw [hid, hown c' hc'] at hfind
      exact (Option.some.inj hfind).symm
    have hsequence : c.sequence = c'.sequence := by
      rw [← sequence_produce (hp c hc), ← sequence_produce (hp c' hc'), hsame]
    exact List.inj_on_of_nodup_map hsequences hc hc' hsequence
  · intro hids c hc
    have hmem : p c ∈ results := hresults.mem_iff.mpr (List.mem_map_of_mem hc)
    have hsome := producedById_isSome hmem
    rw [toolCallId_produce (hp c hc)] at hsome
    obtain ⟨r, hr⟩ := Option.isSome_iff_exists.mp hsome
    obtain ⟨hrmem, hrid⟩ := producedById_some hr
    obtain ⟨c', hc', rfl⟩ := List.mem_map.mp (hresults.mem_iff.mp hrmem)
    rw [toolCallId_produce (hp c' hc')] at hrid
    rw [hr, List.inj_on_of_nodup_map hids hc' hc hrid]

/-! ## Every call is answered by its own execution -/

/-- The merged list has one entry for each signed call, and the k-th entry
is what executing the k-th call produced. -/
def AnsweredInOrder (sign : Sign) (definitions tools : List ToolDefinition)
    (outcome : SignedToolCall → Outcome) (g : SecurityGate) (calls : List SignedToolCall) : Prop :=
  ∃ results, producedResults sign definitions tools outcome g calls = some results ∧
    signedResults sign definitions tools outcome g calls = some (results.map (·.result)) ∧
    calls.map (produce sign tools outcome g) = results.map some

/-- When every call produces a result, only shared ids stand in the way. -/
theorem answeredInOrder_iff_of_produced {p : SignedToolCall → Produced}
    (hsequences : (calls.map (·.sequence)).Nodup)
    (hp : ∀ c ∈ calls, produce sign tools outcome g c = some (p c)) :
    AnsweredInOrder sign definitions tools outcome g calls ↔ (signedIds calls).Nodup := by
  obtain ⟨results, hperm, heq⟩ := producedResults_eq definitions hsequences hp
  have hmap : calls.map (produce sign tools outcome g) = (calls.map p).map some := by
    rw [List.map_map]
    exact List.map_congr_left hp
  rw [← own_result_by_id_iff hsequences hperm hp, ← List.filterMap_eq_map_iff_forall_eq_some]
  constructor
  · rintro ⟨answers, hanswers, -, hown⟩
    rw [heq] at hanswers
    obtain rfl := Option.some.inj hanswers
    rw [hmap] at hown
    exact (List.map_injective_iff.mpr (Option.some_injective _) hown).symm
  · intro hown
    rw [hown] at heq
    refine ⟨calls.map p, heq, ?_, hmap⟩
    rw [signedResults_eq, heq, Option.map_some]

theorem AnsweredInOrder.produced (h : AnsweredInOrder sign definitions tools outcome g calls)
    (hc : c ∈ calls) : produce sign tools outcome g c ≠ none := by
  obtain ⟨answers, -, -, hown⟩ := h
  obtain ⟨r, -, hr⟩ := List.mem_map.mp (hown ▸ List.mem_map_of_mem hc)
  rw [← hr]
  exact Option.some_ne_none r

/-- **Every signed call gets its own result** exactly when the ids are
distinct and no tool that runs ends in a cancellation. -/
theorem signed_results_in_order_iff (hsequences : (calls.map (·.sequence)).Nodup) :
    AnsweredInOrder sign definitions tools outcome g calls ↔
      (signedIds calls).Nodup ∧
        ∀ c ∈ calls, (g.verify sign c).2 = true →
          (getTool tools c.toolCall.name).isSome = true → outcome c ≠ .cancelled := by
  constructor
  · intro hanswered
    have hproduces : ∀ c ∈ calls, produce sign tools outcome g c ≠ none :=
      fun c hc => hanswered.produced hc
    obtain ⟨p, hp⟩ := exists_produced hproduces
    exact ⟨(answeredInOrder_iff_of_produced hsequences hp).mp hanswered,
      fun c hc => produce_ne_none_iff.mp (hproduces c hc)⟩
  · rintro ⟨hids, hcancelled⟩
    obtain ⟨p, hp⟩ := exists_produced fun c hc => produce_ne_none_iff.mpr (hcancelled c hc)
    exact (answeredInOrder_iff_of_produced hsequences hp).mpr hids

/-- A tool that reads and one that writes. -/
def twoTools : List ToolDefinition := [{ name := "Read", sideEffect := false }, { name := "Bash" }]

/-- Calls of both tools with the given ids, as a gate signs them. -/
def twoSigned (first second : String) : List SignedToolCall :=
  [{ toolCall := { id := first, name := "Bash", arguments := "" }, sequence := 1
     signature := "s" },
    { toolCall := { id := second, name := "Read", arguments := "" }, sequence := 2
      signature := "s" }]

def twoOutcomes (c : SignedToolCall) : Outcome :=
  if c.sequence = 1 then .returned { toolCallId := "", output := "written" }
  else .raised "no such file"

theorem signed_results_in_order_two :
    AnsweredInOrder (fun _ _ => some "s") twoTools twoTools twoOutcomes { policy := {} }
      (twoSigned "a" "b") :=
  (signed_results_in_order_iff (by decide)).mpr (by decide)

/-- When a provider sends two calls without ids, both get the result of the
one that writes. -/
theorem calls_of_one_id_share_a_result :
    ¬ ∀ (sign : Sign) (definitions tools : List ToolDefinition) (g g' : SecurityGate)
      (toolCalls : List ToolCall) (auth : AuthorizeResult) (outcome : SignedToolCall → Outcome),
      g.authorize sign tools toolCalls = some (g', auth) →
      (auth.signedCalls.map (·.sequence)).Nodup → (∀ c, outcome c ≠ .cancelled) →
      AnsweredInOrder sign definitions tools outcome g' auth.signedCalls := by
  intro hclaim
  have hauth : ∃ g', SecurityGate.authorize (fun _ _ => some "s") twoTools { policy := {} }
      [{ id := "", name := "Bash", arguments := "" }, { id := "", name := "Read", arguments := "" }]
        = some (g', { signedCalls := twoSigned "" "" }) ∧
      ((producedResults (fun _ _ => some "s") twoTools twoTools twoOutcomes g'
        (twoSigned "" "")).map fun results => results.map (·.sequence)) = some [1, 1] :=
    ⟨{ policy := {}, sequence := 2 }, by decide, by decide⟩
  obtain ⟨g', hauth, hresults⟩ := hauth
  have hnever : ∀ c, twoOutcomes c ≠ .cancelled := by
    intro c
    unfold twoOutcomes
    split <;> simp
  obtain ⟨results, hproduced, -, hown⟩ := hclaim (fun _ _ => some "s") twoTools twoTools _ g' _ _
    twoOutcomes hauth (by decide) hnever
  rw [hproduced, Option.map_some] at hresults
  have hsequences : (twoSigned "" "").map (fun c => (produce (fun _ _ => some "s") twoTools
      twoOutcomes g' c).map (·.sequence)) = [some 1, some 1] := by
    have hmap := congrArg (List.map (Option.map (·.sequence))) hown
    rw [List.map_map, List.map_map] at hmap
    have hnumbers : results.map (some ∘ (·.sequence)) = [some 1, some 1] := by
      rw [← List.map_map, Option.some.inj hresults]
      rfl
    exact hmap.trans hnumbers
  -- the second call has the number 2
  have hsecond := (List.cons.inj (List.cons.inj hsequences).2).1
  obtain ⟨r, hr, hone⟩ := Option.map_eq_some_iff.mp hsecond
  have htwo := sequence_produce hr
  rw [hone] at htwo
  exact absurd htwo (by decide)

end NeuralHub.AgentLoop
