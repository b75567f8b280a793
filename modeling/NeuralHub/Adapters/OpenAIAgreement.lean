/-
NeuralHub.Adapters.OpenAIAgreement — a streamed response and the plain one.

Texts, thoughts and counts agree however they are cut. Of the tool calls
the buffer of an index ends with what its deltas sent last
(`bufferAt_foldl`): a later delta that has the id or the name as null or
empty overwrites the one of the first delta. `FirstDeltaCounts` is that
none does, and that the name has no blanks at its ends, which only the
streamed response strips; `streamed_agrees_iff` that nothing else can go
wrong.
-/
import Mathlib.Data.List.Induction
import NeuralHub.Adapters.OpenAIStreams

namespace NeuralHub.Adapters.OpenAI

open NeuralHub.Lib
open NeuralHub.Plan (truthy)

variable {py : Python} {chunks : ToolChunks} {frames : List Frame} {lines : List (List Char)}

/-! ## Messages and how they are sent -/

structure Call where
  id : String
  name : String
  arguments : String
  deriving DecidableEq, Repr

structure AssistantMessage where
  content : String
  reasoning : String := ""
  calls : List Call := []
  usage : Usage := {}
  deriving DecidableEq, Repr

def Call.Reads (c : Call) (item : Json) : Prop :=
  ∃ call function, item = .obj call ∧ call.get? "id" = some (.str c.id) ∧
    call.get? "function" = some (.obj function) ∧ function.get? "name" = some (.str c.name) ∧
    function.get? "arguments" = some (.str c.arguments)

/-- A member that is a text, where an empty one may be null or absent. -/
def ReadsText (data : Members) (key text : String) : Prop :=
  data.get? key = some (.str text) ∨
    (text = "" ∧ (data.get? key = none ∨ data.get? key = some .null))

/-- The plain response of the message. -/
structure AssistantMessage.Reads (m : AssistantMessage) (data : Members) : Prop where
  message : ∃ choice message others,
    data.get? "choices" = some (.arr (.cons (.obj choice) others)) ∧
    choice.get? "message" = some (.obj message) ∧ ReadsText message "content" m.content ∧
    ReadsText message "reasoning_content" m.reasoning ∧ Listed Call.Reads m.calls message
  usage : (∃ usage, data.get? "usage" = some (.obj usage) ∧ m.usage.Reads usage) ∨
    (m.usage = {} ∧ data.get? "usage" = none)

/-- A call with an id and a name, and arguments that are an object or empty. -/
structure Call.Ok (py : Python) (c : Call) : Prop where
  id : c.id ≠ ""
  name : c.name ≠ ""
  arguments : c.arguments = "" ∨ ∃ members, py.loads c.arguments.toList = some (.obj members)

def deltasOf (frames : List Frame) (index : Int) : List ToolDelta :=
  (frames.flatMap (·.toolCalls)).filter (·.index = index)

/-- The deltas of a call: the first one has its id and its name. -/
def SendsCall (c : Call) (deltas : List ToolDelta) : Prop :=
  ∃ first later, deltas = first :: later ∧ first.id = .text c.id ∧ first.name = .text c.name ∧
    (∀ delta ∈ later, delta.id.piece = "" ∧ delta.name.piece = "") ∧
    String.join (deltas.map (·.arguments.piece)) = c.arguments

/-- The frames send the message. A frame that finishes the tool calls is
followed by none of their deltas. -/
structure Streams (m : AssistantMessage) (frames : List Frame) : Prop where
  content : String.join (frames.map (·.content.piece)) = m.content
  reasoning : String.join (frames.map (·.reasoning.piece)) = m.reasoning
  calls : ∀ (i : Nat) (c : Call), m.calls[i]? = some c → SendsCall c (deltasOf frames i)
  indexes : ∀ delta ∈ frames.flatMap (·.toolCalls),
    ∃ i : Nat, i < m.calls.length ∧ delta.index = (i : Int)
  finish : frames.Pairwise fun f g => f.finishes = true → g.toolCalls = []
  usage : frames.filterMap (·.usage) = [m.usage] ∨
    (frames.filterMap (·.usage) = [] ∧ m.usage = {})

/-- The lines carry the frames, up to `[DONE]` or the end; lines that are no data are skipped. -/
inductive Carries (py : Python) : List (List Char) → List Frame → Prop
  | nil : Carries py [] []
  | done {line : List Char} {lines : List (List Char)} :
      payload? line = some "[DONE]".toList → Carries py (line :: lines) []
  | other {line : List Char} {lines : List (List Char)} {frames : List Frame} :
      payload? line = none → Carries py lines frames → Carries py (line :: lines) frames
  | frame {line raw : List Char} {lines : List (List Char)} {f : Frame} {frames : List Frame}
      {data : Members} : payload? line = some raw → raw ≠ "[DONE]".toList →
      py.loads raw = some (.obj data) → f.Reads data → Carries py lines frames →
      Carries py (line :: lines) (f :: frames)

/-! ## What the lines give -/

theorem handleLines_of_carries (h : Carries py lines frames) (chunks : ToolChunks) :
    ∃ out, handleLines py lines chunks = some out ∧ out ≠ [] ∧
      gather py out = gatherFrames py frames chunks := by
  have hlast : ∀ chunks, gather py (flushToolCalls py chunks ++ [.done]) =
      gatherFrames py [] chunks := by
    intro chunks
    rw [gather_append, gather_flushToolCalls]
    exact Gathered.append_empty _
  induction h generalizing chunks with
  | nil => exact ⟨_, rfl, by simp, hlast chunks⟩
  | done hline =>
    refine ⟨_, ?_, by simp, hlast chunks⟩
    rw [handleLines, hline]
    rfl
  | other hline _ ih =>
    obtain ⟨out, hout, hne, hgather⟩ := ih chunks
    exact ⟨out, by rw [handleLines, hline]; exact hout, hne, hgather⟩
  | @frame line raw lines f frames data hline hraw hloads hreads _ ih =>
    obtain ⟨out, hparse, hout⟩ := parseStreamLine_of_reads hloads hreads chunks
    obtain ⟨rest, hrest, hne, hgather⟩ := ih
      (if f.finishes then .empty else f.toolCalls.foldl addDelta chunks)
    refine ⟨out ++ rest, ?_, by simp [hne], ?_⟩
    · rw [handleLines, hline]
      simp only [if_neg hraw, hparse, hrest, Option.bind_eq_bind, Option.bind_some]
      rfl
    · rw [gather_append, hout, hgather, gatherFrames]
      cases f.finishes
      · rfl
      · rfl

/-! ## Texts, thoughts and counts -/

theorem content_gatherFrames (frames : List Frame) (chunks : ToolChunks) :
    (gatherFrames py frames chunks).content = String.join (frames.map (·.content.piece)) := by
  induction frames generalizing chunks with
  | nil => rfl
  | cons f frames ih =>
    rw [gatherFrames, List.map_cons, String.join_cons]
    split
    · simp [Gathered.append, Frame.gathered, ih]
    · simp [Gathered.append, Frame.gathered, ih]

theorem reasoning_gatherFrames (frames : List Frame) (chunks : ToolChunks) :
    (gatherFrames py frames chunks).reasoning = String.join (frames.map (·.reasoning.piece)) := by
  induction frames generalizing chunks with
  | nil => rfl
  | cons f frames ih =>
    rw [gatherFrames, List.map_cons, String.join_cons]
    split
    · simp [Gathered.append, Frame.gathered, ih]
    · simp [Gathered.append, Frame.gathered, ih]

theorem thinkingBlocks_gatherFrames (frames : List Frame) (chunks : ToolChunks) :
    (gatherFrames py frames chunks).thinkingBlocks = [] := by
  induction frames generalizing chunks with
  | nil => rfl
  | cons f frames ih =>
    rw [gatherFrames]
    split
    · simp [Gathered.append, Frame.gathered, ih]
    · simp [Gathered.append, Frame.gathered, ih]

/-- The counts of the one frame that reports some. -/
theorem usage_gatherFrames (frames : List Frame) (chunks : ToolChunks) :
    (gatherFrames py frames chunks).usage =
      ((frames.filterMap (·.usage)).map Usage.counts).foldr mergeUsage {} := by
  induction frames generalizing chunks with
  | nil => rfl
  | cons f frames ih =>
    have hcons : (((f :: frames).filterMap (·.usage)).map Usage.counts).foldr mergeUsage {} =
        mergeUsage f.counts
          (((frames.filterMap (·.usage)).map Usage.counts).foldr mergeUsage {}) := by
      cases hf : f.usage with
      | none => simp [Frame.counts, hf]
      | some x => simp [Frame.counts, hf]
    rw [hcons, gatherFrames]
    split
    · simp [Gathered.append, Frame.gathered, ih]
    · simp [Gathered.append, Frame.gathered, ih]

/-! ## Tool calls -/

theorem toolCalls_of_no_deltas {frames : List Frame} (h : ∀ f ∈ frames, f.toolCalls = []) :
    (gatherFrames py frames .empty).toolCalls = [] := by
  induction frames with
  | nil => rfl
  | cons f frames ih =>
    rw [gatherFrames, h f List.mem_cons_self]
    have hrest := ih fun g hg => h g (List.mem_cons_of_mem f hg)
    split
    · simp [Gathered.append, Frame.gathered, hrest]
    · simpa [Gathered.append, Frame.gathered] using hrest

/-- Whether the table is flushed on the way or at the end. -/
theorem toolCalls_gatherFrames {frames : List Frame}
    (h : frames.Pairwise fun f g => f.finishes = true → g.toolCalls = []) (chunks : ToolChunks) :
    (gatherFrames py frames chunks).toolCalls =
      flushed py ((frames.flatMap (·.toolCalls)).foldl addDelta chunks) := by
  induction frames generalizing chunks with
  | nil => rfl
  | cons f frames ih =>
    obtain ⟨hf, hframes⟩ := List.pairwise_cons.mp h
    rw [gatherFrames, List.flatMap_cons, List.foldl_append]
    split
    · rename_i hfinishes
      have hnone : ∀ g ∈ frames, g.toolCalls = [] := fun g hg => hf g hg hfinishes
      have hdeltas : frames.flatMap (·.toolCalls) = [] := List.flatMap_eq_nil_iff.mpr hnone
      simp [Gathered.append, Frame.gathered, hdeltas, toolCalls_of_no_deltas hnone]
    · rw [← ih hframes]
      simp [Gathered.append, Frame.gathered]

theorem find_addDelta (chunks : ToolChunks) (delta : ToolDelta) (index : Int) :
    (addDelta chunks delta).find index =
      if index = delta.index then some ((bufferAt chunks delta.index).add delta)
      else chunks.find index := by
  have hkey : ((bufferAt chunks delta.index).add delta).index = delta.index :=
    index_bufferAt chunks delta.index
  rw [addDelta, Table.find_put, hkey]

/-- A buffer is what the deltas of its index make of it. -/
theorem find_foldl (deltas : List ToolDelta) (chunks : ToolChunks) (index : Int) :
    (deltas.foldl addDelta chunks).find index =
      if deltas.filter (·.index = index) = [] then chunks.find index
      else some ((deltas.filter (·.index = index)).foldl Buffer.add (bufferAt chunks index)) := by
  induction deltas generalizing chunks with
  | nil => rfl
  | cons delta deltas ih =>
    rw [List.foldl_cons, ih, find_addDelta]
    by_cases hindex : delta.index = index
    · subst hindex
      have hbuffer : bufferAt (addDelta chunks delta) delta.index =
          (bufferAt chunks delta.index).add delta := by
        rw [bufferAt, find_addDelta, if_pos rfl]
        rfl
      simp only [List.filter_cons, decide_true, if_true, hbuffer, List.foldl_cons,
        reduceCtorEq, if_false]
      split
      · rename_i hnil
        rw [hnil]
        rfl
      · rfl
    · have hbuffer : bufferAt (addDelta chunks delta) index = bufferAt chunks index := by
        rw [bufferAt, find_addDelta, if_neg (Ne.symm hindex), bufferAt]
      simp only [List.filter_cons, decide_eq_true_iff, hindex, if_false, hbuffer,
        if_neg (Ne.symm hindex)]

/-- The buffer of an index behind all frames. -/
def finalBuffer (frames : List Frame) (index : Int) : Buffer :=
  (deltasOf frames index).foldl Buffer.add { index }

/-- What a flush makes of a buffer. -/
def callOf (py : Python) (buffer : Buffer) : Option ToolCall :=
  if truthy buffer.name then
    toolCall py buffer.id buffer.name (parseArgs py (.str buffer.arguments))
  else none

theorem flushed_eq_filterMap (py : Python) (chunks : ToolChunks) :
    flushed py chunks =
      (chunks.entries.insertionSort fun a b => a.index ≤ b.index).filterMap (callOf py) := by
  rw [flushed, List.filterMap_filter]
  rfl

/-- Where the indexes of the deltas are the first numbers, the flush goes through them in order. -/
theorem flushed_foldl {n : Nat} (hindexes : ∀ delta ∈ frames.flatMap (·.toolCalls),
      ∃ i : Nat, i < n ∧ delta.index = (i : Int))
    (hall : ∀ i : Nat, i < n → deltasOf frames i ≠ []) :
    flushed py ((frames.flatMap (·.toolCalls)).foldl addDelta .empty) =
      (List.range n).filterMap fun i : Nat => callOf py (finalBuffer frames i) := by
  have hfind : ∀ index : Int, ((frames.flatMap (·.toolCalls)).foldl addDelta .empty).find index =
      if deltasOf frames index = [] then none else some (finalBuffer frames index) := by
    intro index
    exact find_foldl (frames.flatMap (·.toolCalls)) .empty index
  have hkeys : ((List.range n).map fun i : Nat => (i : Int)).Pairwise (· < ·) := by
    rw [List.pairwise_map]
    exact List.pairwise_lt_range.imp fun h => Int.ofNat_lt.mpr h
  have hmem : ∀ index : Int, index ∈ (List.range n).map (fun i : Nat => (i : Int)) ↔
      (((frames.flatMap (·.toolCalls)).foldl addDelta .empty).find index).isSome := by
    intro index
    rw [hfind, List.mem_map]
    constructor
    · rintro ⟨i, hi, rfl⟩
      rw [if_neg (hall i (List.mem_range.mp hi))]
      rfl
    · intro hsome
      have hne : deltasOf frames index ≠ [] := by
        intro hnil
        rw [if_pos hnil] at hsome
        cases hsome
      obtain ⟨delta, hdelta⟩ := List.exists_mem_of_ne_nil _ hne
      obtain ⟨hin, heq⟩ := List.mem_filter.mp hdelta
      obtain ⟨i, hi, hindex⟩ := hindexes delta hin
      exact ⟨i, List.mem_range.mpr hi, hindex.symm.trans (of_decide_eq_true heq)⟩
  rw [flushed_eq_filterMap, Table.insertionSort_entries _ hkeys hmem, List.filterMap_map,
    List.filterMap_filterMap]
  refine List.filterMap_congr fun i hi => ?_
  rw [Function.comp_apply, hfind, if_neg (hall i (List.mem_range.mp hi))]
  rfl

/-- A list with something for every element. -/
theorem filterMap_eq_iff {α β : Type} {f : α → Option β} {xs : List α} {ys : List β}
    (h : ys.length = xs.length) : xs.filterMap f = ys ↔ xs.map f = ys.map some := by
  induction xs generalizing ys with
  | nil => simp [List.length_eq_zero_iff.mp h]
  | cons x xs ih =>
    obtain ⟨y, ys, rfl⟩ := List.exists_cons_of_length_eq_add_one h
    have hlength : ys.length = xs.length := Nat.succ.inj h
    cases hx : f x with
    | none =>
      refine iff_of_false (fun heq => ?_) (by simp [hx])
      have hle := List.length_filterMap_le f xs
      rw [List.filterMap_cons_none hx] at heq
      rw [heq, List.length_cons] at hle
      omega
    | some z =>
      rw [List.filterMap_cons_some hx, List.map_cons, List.map_cons, hx, List.cons.injEq,
        List.cons.injEq, ih hlength, Option.some.injEq]

/-! ## One call -/

/-- The last of these that is there. -/
def lastSent (fields : List Field) : Field := ((fields.filter (· ≠ .absent)).getLast?).getD .absent

def Call.plain (py : Python) (c : Call) : ToolCall where
  id := c.id
  name := c.name
  arguments := asRecord (parseArgs py (.str c.arguments))

/-- Behind the first delta no name is sent, and no id either, unless the
last one is null and the id is what null is written as. -/
def FirstDeltaCounts (c : Call) (deltas : List ToolDelta) : Prop :=
  stripped c.name = c.name ∧ (∀ delta ∈ deltas.tail, delta.name = .absent) ∧
    ((∀ delta ∈ deltas.tail, delta.id = .absent) ∨
      (lastSent (deltas.tail.map (·.id)) = .null ∧ c.id = "None"))

theorem lastSent_snoc (fields : List Field) (field : Field) :
    lastSent (fields ++ [field]) = if field = .absent then lastSent fields else field := by
  unfold lastSent
  by_cases h : field = .absent
  · simp [h]
  · simp [h, List.filter_append]

theorem lastSent_eq_absent_iff {fields : List Field} :
    lastSent fields = .absent ↔ ∀ field ∈ fields, field = .absent := by
  induction fields using List.reverseRecOn with
  | nil => simp [lastSent]
  | append_singleton fields field ih =>
    rw [lastSent_snoc]
    by_cases h : field = .absent
    · rw [if_pos h, ih]
      simp only [List.mem_append, List.mem_singleton]
      constructor
      · rintro hall other (hother | rfl)
        · exact hall other hother
        · exact h
      · exact fun hall other hother => hall other (.inl hother)
    · simp [h]

/-- What was sent last stays in the buffer. -/
theorem foldl_getD (fields : List Field) (value : Json) :
    fields.foldl (fun value field => field.json?.getD value) value =
      (lastSent fields).json?.getD value := by
  induction fields using List.reverseRecOn with
  | nil => rfl
  | append_singleton fields field ih =>
    rw [List.foldl_append, ih, lastSent_snoc]
    cases field with
    | absent => rfl
    | null => rfl
    | text s => rfl

theorem foldl_add (deltas : List ToolDelta) (buffer : Buffer) :
    deltas.foldl Buffer.add buffer =
      { index := buffer.index
        id := (lastSent (deltas.map (·.id))).json?.getD buffer.id
        name := (lastSent (deltas.map (·.name))).json?.getD buffer.name
        arguments := buffer.arguments ++ String.join (deltas.map (·.arguments.piece)) } := by
  have hfold : deltas.foldl Buffer.add buffer =
      { index := buffer.index
        id := (deltas.map (·.id)).foldl (fun value field => field.json?.getD value) buffer.id
        name := (deltas.map (·.name)).foldl (fun value field => field.json?.getD value) buffer.name
        arguments := buffer.arguments ++ String.join (deltas.map (·.arguments.piece)) } := by
    induction deltas generalizing buffer with
    | nil => simp
    | cons delta deltas ih =>
      rw [List.foldl_cons, ih]
      simp [Buffer.add, String.append_assoc]
  rw [hfold, foldl_getD, foldl_getD]

/-- A last field without text is none, null or empty. -/
theorem lastSent_piece {fields : List Field} (h : ∀ field ∈ fields, field.piece = "") :
    (lastSent fields).piece = "" := by
  induction fields using List.reverseRecOn with
  | nil => rfl
  | append_singleton fields field ih =>
    rw [lastSent_snoc]
    split
    · exact ih fun other hother => h other (List.mem_append_left _ hother)
    · exact h field (by simp)

/-- **The call that comes out is the one that was sent exactly when its first delta counts.** -/
theorem callOf_finalBuffer_iff {c : Call} {index : Int} (hc : c.Ok py)
    (h : SendsCall c (deltasOf frames index)) :
    callOf py (finalBuffer frames index) = some (c.plain py) ↔
      FirstDeltaCounts c (deltasOf frames index) := by
  obtain ⟨first, later, hdeltas, hid, hname, hlater, hjoin⟩ := h
  have hfinal : finalBuffer frames index =
      { index
        id := (lastSent (later.map (·.id))).json?.getD (.str c.id)
        name := (lastSent (later.map (·.name))).json?.getD (.str c.name)
        arguments := c.arguments } := by
    rw [finalBuffer, hdeltas, List.foldl_cons, foldl_add]
    rw [hdeltas, List.map_cons, String.join_cons] at hjoin
    simp [Buffer.add, hid, hname, Field.json?, hjoin]
  have hids : (lastSent (later.map (·.id))).piece = "" := by
    refine lastSent_piece fun field hfield => ?_
    obtain ⟨delta, hdelta, rfl⟩ := List.mem_map.mp hfield
    exact (hlater delta hdelta).1
  have hnames : (lastSent (later.map (·.name))).piece = "" := by
    refine lastSent_piece fun field hfield => ?_
    obtain ⟨delta, hdelta, rfl⟩ := List.mem_map.mp hfield
    exact (hlater delta hdelta).2
  have hidsAbsent : lastSent (later.map (·.id)) = .absent ↔
      ∀ delta ∈ later, delta.id = .absent := by
    simp [lastSent_eq_absent_iff]
  have hnamesAbsent : lastSent (later.map (·.name)) = .absent ↔
      ∀ delta ∈ later, delta.name = .absent := by
    simp [lastSent_eq_absent_iff]
  rw [hfinal, FirstDeltaCounts, hdeltas, List.tail_cons, ← hidsAbsent, ← hnamesAbsent]
  cases hlast : lastSent (later.map (·.name)) with
  | null => simp [callOf, Field.json?, truthy]
  | text s =>
    rw [hlast] at hnames
    simp [callOf, Field.json?, truthy, show s = "" from hnames]
  | absent =>
    have hcall : ∀ id : Json, callOf py ⟨index, id, .str c.name, c.arguments⟩ =
        some (c.plain py) ↔ stripped c.name = c.name ∧ py.str id = c.id := by
      intro id
      by_cases hempty : stripped c.name = ""
      · refine iff_of_false ?_ fun heq => hc.name (heq.1 ▸ hempty)
        simp [callOf, toolCall, Python.str, hempty]
      · simp [callOf, toolCall, Python.str, truthy, hc.name, hempty, Call.plain, and_comm]
    refine (hcall _).trans ?_
    cases hlastId : lastSent (later.map (·.id)) with
    | absent => simp [Field.json?, Python.str]
    | null => simp [Field.json?, Python.str, eq_comm]
    | text s =>
      rw [hlastId] at hids
      simp [Field.json?, Python.str, show s = "" from hids, Ne.symm hc.id]

/-! ## The plain response -/

theorem textOr_of_readsText {data : Members} {key text : String} (h : ReadsText data key text) :
    textOr (member data key (.str "")) = some text := by
  rcases h with hget | ⟨rfl, hnone | hnull⟩
  · rw [member, hget]
    by_cases htext : text = ""
    · subst htext
      rfl
    · simp [textOr, truthy, htext, str?]
  · rw [member, hnone]
    rfl
  · rw [member, hnull]
    rfl

theorem plainToolCall_of_reads {c : Call} {item : Json} (hc : c.Ok py) (h : c.Reads item) :
    plainToolCall py item = some (c.plain py) := by
  obtain ⟨call, function, rfl, hid, hfunction, hname, harguments⟩ := h
  have hdict : dict? (parseArgs py (.str c.arguments)) =
      some (asRecord (parseArgs py (.str c.arguments))) := by
    rcases hc.arguments with hempty | ⟨members, hmembers⟩
    · rw [hempty]
      rfl
    · by_cases hempty : c.arguments = ""
      · rw [hempty]
        rfl
      · simp [parseArgs, hempty, hmembers, dict?, asRecord]
  simp only [plainToolCall, member, hid, hfunction, hname, harguments, Option.getD_some, str?,
    Option.bind_eq_bind, Option.bind_some, hdict,
    show ∀ x, dict? (.obj x) = some x from fun _ => rfl]
  rfl

theorem mapM_plainToolCall {calls : List Call} {items : List Json} (hcalls : ∀ c ∈ calls, c.Ok py)
    (h : List.Forall₂ Call.Reads calls items) :
    items.mapM (plainToolCall py) = some (calls.map (Call.plain py)) := by
  induction h with
  | nil => rfl
  | cons hread _ ih =>
    obtain ⟨hc, hrest⟩ := List.forall_mem_cons.mp hcalls
    simp [plainToolCall_of_reads hc hread, ih hrest]

def reasoningOf (text : String) : Option Json := if text = "" then none else some (.str text)

theorem providerMetadata_of_readsText {message : Members} {text : String}
    (h : ReadsText message "reasoning_content" text) :
    (providerMetadata message).get? "reasoning_content" = reasoningOf text := by
  rcases h with hget | ⟨rfl, hnone | hnull⟩
  · rw [providerMetadata, hget, reasoningOf]
    by_cases htext : text = ""
    · simp [htext]
    · simp [htext, Members.get?]
  · rw [providerMetadata, hnone]
    rfl
  · rw [providerMetadata, hnull]
    rfl

theorem metadata_reasoning (text : String) :
    (metadata py text []).get? "reasoning_content" = reasoningOf text := by
  by_cases htext : text = ""
  · simp [metadata, reasoningOf, htext]
  · simp [metadata, reasoningOf, htext, Members.get?]

theorem cachedTokens_of_reads {usage : Members} {x : Usage} (h : x.Reads usage) :
    cachedTokens usage = .int (x.cachedTokens.getD 0) := by
  rw [cachedTokens, member]
  rcases h.cached with ⟨details, hdetails, hcached⟩ | ⟨hnone, hdetails⟩
  · rw [hdetails, Option.getD_some]
    dsimp only
    rw [member, hcached]
    cases x.cachedTokens <;> rfl
  · rw [hnone]
    cases hget : usage.get? "prompt_tokens_details" with
    | none => rfl
    | some value =>
      cases value with
      | obj details => exact absurd hget (hdetails details)
      | _ => rfl

theorem parseResponse_of_reads {m : AssistantMessage} {data : Members}
    (hcalls : ∀ c ∈ m.calls, c.Ok py) (h : m.Reads data) :
    ∃ r, parseResponse py data = some r ∧ r.content = m.content ∧
      r.toolCalls = m.calls.map (Call.plain py) ∧ r.usage = m.usage.counts ∧
      r.reasoning = reasoningOf m.reasoning := by
  obtain ⟨choice, message, others, hchoices, hmessage, hcontent, hreasoning, hlisted⟩ := h.message
  obtain ⟨items, hitems, hreads⟩ := toolCallItems_of_listed hlisted
  have hchoice : firstChoice data = some choice := by
    rw [firstChoice, member, hchoices]
    rfl
  have husage : ∃ usage, dict? (member data "usage" (.obj .nil)) = some usage ∧
      m.usage.Reads usage := by
    rcases h.usage with ⟨usage, hget, hread⟩ | ⟨hempty, hget⟩
    · exact ⟨usage, by rw [member, hget]; rfl, hread⟩
    · have hnil : Usage.Reads {} .nil := ⟨rfl, rfl, .inr ⟨rfl, by simp [Members.get?]⟩⟩
      exact ⟨.nil, by rw [member, hget]; rfl, hempty ▸ hnil⟩
  obtain ⟨usage, hdict, hreads'⟩ := husage
  have hcached : cachedTokens usage = .int (m.usage.cachedTokens.getD 0) :=
    cachedTokens_of_reads hreads'
  have hcompletion : member usage "completion_tokens" (.int 0) =
      .int (m.usage.completionTokens.getD 0) := by
    rw [member, hreads'.completion]
    cases m.usage.completionTokens <;> rfl
  have hmessageDict : dict? (member choice "message" (.obj .nil)) = some message := by
    rw [member, hmessage]
    rfl
  refine ⟨
    { content := m.content
      toolCalls := m.calls.map (Call.plain py)
      usage := m.usage.counts
      providerMetadata := providerMetadata message },
    ?_, rfl, rfl, rfl, providerMetadata_of_readsText hreasoning⟩
  simp only [parseResponse, hchoice, hmessageDict, hitems, hdict, mapM_plainToolCall hcalls hreads,
    hcached, intOr_int, hcompletion, textOr_of_readsText hcontent, int?,
    countOr_of_get? hreads'.prompt, Option.bind_eq_bind, Option.bind_some]
  rfl

/-! ## Agreement -/

/-- The responses have the same texts, thoughts, calls and counts. -/
structure Agree (plain streamed : LLMResponse) : Prop where
  content : streamed.content = plain.content
  reasoning : streamed.reasoning = plain.reasoning
  toolCalls : streamed.toolCalls = plain.toolCalls
  usage : streamed.usage = plain.usage

/-- **The streamed response agrees with the plain one exactly when, of every
call, the first delta counts.** -/
theorem streamed_agrees_iff {m : AssistantMessage} {data : Members}
    (hcalls : ∀ c ∈ m.calls, c.Ok py) (hplain : m.Reads data) (hlines : Carries py lines frames)
    (hsent : Streams m frames) :
    (∃ plain response, parseResponse py data = some plain ∧ streamed py lines = some response ∧
        Agree plain response) ↔
      ∀ (i : Nat) (c : Call), m.calls[i]? = some c → FirstDeltaCounts c (deltasOf frames i) := by
  obtain ⟨plain, hparse, hcontent, htoolCalls, husage, hreasoning⟩ :=
    parseResponse_of_reads hcalls hplain
  obtain ⟨out, hout, hne, hgather⟩ := handleLines_of_carries hlines .empty
  have hcounts : (gatherFrames py frames .empty).usage = m.usage.counts := by
    rw [usage_gatherFrames]
    rcases hsent.usage with hone | ⟨hnone, hzero⟩
    · rw [hone]
      exact mergeUsage_zero _
    · rw [hnone, hzero]
      rfl
  have hresponse : streamed py lines = some {
      content := m.content
      toolCalls := (gatherFrames py frames .empty).toolCalls
      usage := m.usage.counts
      providerMetadata := metadata py m.reasoning [] } := by
    rw [streamed, handleStreamResponse, hout, Option.bind_some, completeWithStream, if_neg hne,
      hgather]
    simp only [content_gatherFrames, reasoning_gatherFrames, thinkingBlocks_gatherFrames, hcounts,
      hsent.content, hsent.reasoning]
  have hdeltas : ∀ i : Nat, i < m.calls.length → deltasOf frames i ≠ [] := by
    intro i hi
    obtain ⟨first, later, hfirst, -⟩ := hsent.calls i m.calls[i] (List.getElem?_eq_getElem hi)
    rw [hfirst]
    exact List.cons_ne_nil _ _
  have hagree : (∃ plain response, parseResponse py data = some plain ∧
      streamed py lines = some response ∧ Agree plain response) ↔
        (gatherFrames py frames .empty).toolCalls = m.calls.map (Call.plain py) := by
    constructor
    · rintro ⟨plain', response, hplain', hresponse', hagree⟩
      rw [hparse] at hplain'
      rw [hresponse] at hresponse'
      cases hplain'
      cases hresponse'
      exact hagree.toolCalls.trans htoolCalls
    · intro heq
      refine ⟨plain, _, hparse, hresponse, hcontent.symm, ?_, heq.trans htoolCalls.symm,
        husage.symm⟩
      exact (metadata_reasoning m.reasoning).trans hreasoning.symm
  have hlength : (m.calls.map (Call.plain py)).length = (List.range m.calls.length).length := by
    simp
  rw [hagree, toolCalls_gatherFrames hsent.finish, flushed_foldl hsent.indexes hdeltas,
    filterMap_eq_iff hlength]
  constructor
  · intro heq i c hc
    have hi := List.getElem?_eq_some_iff.mp hc
    have hget := congrArg (fun list => list[i]?) heq
    simp only [List.getElem?_map, hc, List.getElem?_range hi.1, Option.map_some] at hget
    exact (callOf_finalBuffer_iff (hcalls c (List.mem_of_getElem? hc)) (hsent.calls i c hc)).mp
      (Option.some.inj hget)
  · intro hall
    refine List.ext_getElem (by simp) fun i hi _ => ?_
    rw [List.length_map, List.length_range] at hi
    have hc : m.calls[i]? = some m.calls[i] := List.getElem?_eq_getElem hi
    have hcall := (callOf_finalBuffer_iff (hcalls _ (List.mem_of_getElem? hc))
      (hsent.calls i _ hc)).mpr (hall i _ hc)
    simpa using hcall

/-! ## Two calls in turns, and a call that is lost -/

def oneChoice (choice : List (String × Json)) : Members :=
  .cons "choices" (.arr (.cons (dictionary choice) .nil)) .nil

def deltaFrame (call : List (String × Json)) : Members :=
  oneChoice [("delta", dictionary [("tool_calls", .arr (.cons (dictionary call) .nil))])]

def readCall : AssistantMessage where
  content := ""
  calls := [{ id := "c1", name := "Read", arguments := "\x7b\x7d" }]

/-- The plain response. -/
def readResponse : Members :=
  oneChoice [("message", dictionary [("tool_calls", .arr (.cons (dictionary
    [("id", .str "c1"),
      ("function", dictionary [("name", .str "Read"), ("arguments", .str "\x7b\x7d")])])
    .nil))])]

def wholeDelta : ToolDelta where
  index := 0
  id := .text "c1"
  name := .text "Read"
  arguments := .text "\x7b\x7d"

/-- The arguments cut in two, and the name null in the second frame. -/
def cutDeltas : List ToolDelta :=
  [{ wholeDelta with arguments := .text "\x7b" },
    { index := 0, name := .null, arguments := .text "\x7d" }]

def cutFrames : List Members :=
  [deltaFrame [("index", .int 0), ("id", .str "c1"),
      ("function", dictionary [("name", .str "Read"), ("arguments", .str "\x7b")])],
    deltaFrame [("index", .int 0),
      ("function", dictionary [("name", .null), ("arguments", .str "\x7d")])]]

theorem ok_readCall : ∀ c ∈ readCall.calls, c.Ok jsonPython := by
  intro c hc
  obtain rfl := List.mem_singleton.mp hc
  exact ⟨by decide, by decide, .inr ⟨.nil, by decide⟩⟩

theorem reads_readResponse : readCall.Reads readResponse where
  message := by
    refine ⟨_, _, _, rfl, rfl, .inr ⟨rfl, .inl rfl⟩, .inr ⟨rfl, .inl rfl⟩, .inl ⟨_, rfl, ?_⟩⟩
    exact .cons ⟨_, _, rfl, rfl, rfl, rfl, rfl⟩ .nil
  usage := .inr ⟨rfl, rfl⟩

/-- A frame that has one delta and nothing else. -/
theorem reads_deltaFrame {delta : ToolDelta} {call : List (String × Json)}
    (h : delta.Reads (dictionary call)) :
    Frame.Reads { toolCalls := [delta] } (deltaFrame call) where
  choice := .inl ⟨_, _, _, rfl, rfl, rfl, rfl, rfl, .inl ⟨_, rfl, .cons h .nil⟩⟩
  usage := .inr ⟨rfl, fun _ => by simp [deltaFrame, oneChoice, Members.get?]⟩

theorem carries_deltaFrame {delta : ToolDelta} {call : List (String × Json)}
    (hpayload : payload? (dataLine (deltaFrame call)) = some (Json.obj (deltaFrame call)).text)
    (hdone : (Json.obj (deltaFrame call)).text ≠ "[DONE]".toList)
    (hvalid : (Json.obj (deltaFrame call)).valid = true) (hreads : delta.Reads (dictionary call))
    (h : Carries jsonPython lines frames) :
    Carries jsonPython (dataLine (deltaFrame call) :: lines) ({ toolCalls := [delta] } :: frames) :=
  .frame hpayload hdone (loads_jsonPython hvalid) (reads_deltaFrame hreads) h

def twoCalls : AssistantMessage where
  content := ""
  calls :=
    [{ id := "c1", name := "Read", arguments := "\x7b\"a\":1\x7d" },
      { id := "c2", name := "Grep", arguments := "\x7b\x7d" }]

def twoCallsResponse : Members :=
  oneChoice [("message", dictionary [("tool_calls", .arr
    (.cons (dictionary [("id", .str "c1"), ("function", dictionary
        [("name", .str "Read"), ("arguments", .str "\x7b\"a\":1\x7d")])])
      (.cons (dictionary [("id", .str "c2"), ("function", dictionary
        [("name", .str "Grep"), ("arguments", .str "\x7b\x7d")])])
    .nil)))])]

/-- The two calls in turns, with the arguments of each cut. -/
def piecesInTurns : List ToolDelta :=
  [{ index := 0, id := .text "c1", name := .text "Read", arguments := .text "\x7b\"a" },
    { index := 1, id := .text "c2", name := .text "Grep", arguments := .text "\x7b" },
    { index := 0, arguments := .text "\":1\x7d" },
    { index := 1, arguments := .text "\x7d" }]

def framesInTurns : List Frame := piecesInTurns.map fun delta => { toolCalls := [delta] }

def linesInTurns : List (List Char) :=
  [dataLine (deltaFrame [("index", .int 0), ("id", .str "c1"),
      ("function", dictionary [("name", .str "Read"), ("arguments", .str "\x7b\"a")])]),
    dataLine (deltaFrame [("index", .int 1), ("id", .str "c2"),
      ("function", dictionary [("name", .str "Grep"), ("arguments", .str "\x7b")])]),
    dataLine (deltaFrame [("index", .int 0),
      ("function", dictionary [("arguments", .str "\":1\x7d")])]),
    dataLine (deltaFrame [("index", .int 1),
      ("function", dictionary [("arguments", .str "\x7d")])]),
    "data: [DONE]".toList]

theorem ok_twoCalls : ∀ c ∈ twoCalls.calls, c.Ok jsonPython := by
  intro c hc
  rcases List.mem_pair.mp hc with rfl | rfl
  · exact ⟨by decide, by decide, .inr ⟨.cons "a" (.int 1) .nil, by decide +kernel⟩⟩
  · exact ⟨by decide, by decide, .inr ⟨.nil, by decide +kernel⟩⟩

theorem reads_twoCallsResponse : twoCalls.Reads twoCallsResponse where
  message := by
    refine ⟨_, _, _, rfl, rfl, .inr ⟨rfl, .inl rfl⟩, .inr ⟨rfl, .inl rfl⟩, .inl ⟨_, rfl, ?_⟩⟩
    exact .cons ⟨_, _, rfl, rfl, rfl, rfl, rfl⟩ (.cons ⟨_, _, rfl, rfl, rfl, rfl, rfl⟩ .nil)
  usage := .inr ⟨rfl, rfl⟩

theorem carries_linesInTurns : Carries jsonPython linesInTurns framesInTurns := by
  refine carries_deltaFrame (by decide +kernel) (by decide +kernel) (by decide +kernel)
    ⟨_, _, rfl, rfl, rfl, rfl, rfl, rfl⟩ ?_
  refine carries_deltaFrame (by decide +kernel) (by decide +kernel) (by decide +kernel)
    ⟨_, _, rfl, rfl, rfl, rfl, rfl, rfl⟩ ?_
  refine carries_deltaFrame (by decide +kernel) (by decide +kernel) (by decide +kernel)
    ⟨_, _, rfl, rfl, rfl, rfl, rfl, rfl⟩ ?_
  refine carries_deltaFrame (by decide +kernel) (by decide +kernel) (by decide +kernel)
    ⟨_, _, rfl, rfl, rfl, rfl, rfl, rfl⟩ ?_
  exact .done (by decide +kernel)

theorem streams_framesInTurns : Streams twoCalls framesInTurns where
  content := by decide
  reasoning := by decide
  calls i c hc := by
    match i with
    | 0 =>
      cases hc
      exact ⟨_, _, rfl, rfl, rfl, by decide, by decide⟩
    | 1 =>
      cases hc
      exact ⟨_, _, rfl, rfl, rfl, by decide, by decide⟩
    | i + 2 => cases hc
  indexes delta hdelta := by
    have hall : ∀ delta ∈ framesInTurns.flatMap (·.toolCalls),
        delta.index = 0 ∨ delta.index = 1 := by decide
    rcases hall delta hdelta with h | h
    · exact ⟨0, by decide, h⟩
    · exact ⟨1, by decide, h⟩
  finish := by decide
  usage := .inr ⟨rfl, rfl⟩

theorem calls_in_turns_agree :
    ∃ plain response, parseResponse jsonPython twoCallsResponse = some plain ∧
      streamed jsonPython linesInTurns = some response ∧ Agree plain response := by
  refine (streamed_agrees_iff ok_twoCalls reads_twoCallsResponse carries_linesInTurns
    streams_framesInTurns).mpr ?_
  intro i c hc
  match i with
  | 0 =>
    cases hc
    exact ⟨by decide +kernel, by decide, .inl (by decide)⟩
  | 1 =>
    cases hc
    exact ⟨by decide +kernel, by decide, .inl (by decide)⟩
  | i + 2 => cases hc

/-- The call is lost. -/
theorem not_streamed_agrees : ¬ ∀ (py : Python) (m : AssistantMessage) (data : Members)
    (lines : List (List Char)) (frames : List Frame), (∀ c ∈ m.calls, c.Ok py) → m.Reads data →
    Carries py lines frames → Streams m frames →
      ∃ plain response, parseResponse py data = some plain ∧ streamed py lines = some response ∧
        Agree plain response := by
  intro hall
  have hcarries : Carries jsonPython (cutFrames.map dataLine)
      (cutDeltas.map fun delta => { toolCalls := [delta] }) := by
    refine .frame (by decide +kernel : payload? _ = some (Json.obj (cutFrames[0])).text)
      (by decide +kernel) (loads_jsonPython (by decide +kernel)) (reads_deltaFrame ?_) ?_
    · exact ⟨_, _, rfl, rfl, rfl, rfl, rfl, rfl⟩
    refine .frame (by decide +kernel : payload? _ = some (Json.obj (cutFrames[1])).text)
      (by decide +kernel) (loads_jsonPython (by decide +kernel)) (reads_deltaFrame ?_) .nil
    exact ⟨_, _, rfl, rfl, rfl, rfl, rfl, rfl⟩
  have hstreams : Streams readCall (cutDeltas.map fun delta => { toolCalls := [delta] }) := by
    refine ⟨by decide, by decide, fun i c hc => ?_, fun delta hdelta => ?_,
      by simp [cutDeltas, Frame.finishes], .inr ⟨rfl, rfl⟩⟩
    · cases i with
      | zero =>
        cases hc
        exact ⟨_, _, rfl, rfl, rfl, by decide, by decide⟩
      | succ i => cases hc
    · refine ⟨0, by decide, ?_⟩
      simp only [cutDeltas, List.map_cons, List.map_nil, List.flatMap_cons, List.flatMap_nil,
        List.append_nil, List.cons_append, List.nil_append, List.mem_cons, List.not_mem_nil,
        or_false] at hdelta
      obtain rfl | rfl := hdelta
      · rfl
      · rfl
  obtain ⟨plain, response, hplain, hresponse, hagree⟩ := hall jsonPython readCall readResponse _ _
    ok_readCall reads_readResponse hcarries hstreams
  have hcalls : (parseResponse jsonPython readResponse).map (·.toolCalls) =
      some [⟨"c1", "Read", .nil⟩] := by decide +kernel
  have hlost : (streamed jsonPython (cutFrames.map dataLine)).map (·.toolCalls) = some [] := by
    decide +kernel
  rw [hplain] at hcalls
  rw [hresponse] at hlost
  have heq := (Option.some.inj hlost).symm.trans (hagree.toolCalls.trans (Option.some.inj hcalls))
  cases heq

end NeuralHub.Adapters.OpenAI
