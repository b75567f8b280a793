/-
NeuralHub.Adapters.OpenAIStreams — an assistant message of an
OpenAI-compatible provider, sent in frames.

`Frame.Reads` says what a frame is to a reader of its JSON, whatever else
is in it, and `Streams` that frames send a message: texts and arguments cut
into pieces, the tool calls interleaved, id and name of a call in its first
delta. A later delta of the call may have them empty, null or not at all.

`gather_handleFrames` says what `complete_with_stream` makes of any frames.
-/
import NeuralHub.Adapters.OpenAI

namespace NeuralHub.Adapters.OpenAI

open NeuralHub.Lib
open NeuralHub.Plan (truthy)

/-! ## Frames -/

/-- A member of an object that is a string. -/
inductive Field
  | absent
  | null
  | text (s : String)
  deriving DecidableEq, Repr

def Field.json? : Field → Option Json
  | .absent => none
  | .null => some .null
  | .text s => some (.str s)

/-- The piece of a text that a field sends. -/
def Field.piece : Field → String
  | .text s => s
  | _ => ""

structure ToolDelta where
  index : Int
  id : Field := .absent
  name : Field := .absent
  arguments : Field := .absent
  deriving DecidableEq, Repr

structure Usage where
  promptTokens : Option Int := none
  completionTokens : Option Int := none
  cachedTokens : Option Int := none
  deriving DecidableEq, Repr

structure Frame where
  content : Field := .absent
  reasoning : Field := .absent
  finish : Field := .absent
  toolCalls : List ToolDelta := []
  usage : Option Usage := none
  deriving DecidableEq, Repr

def ToolDelta.Reads (delta : ToolDelta) (item : Json) : Prop :=
  ∃ call function, item = .obj call ∧ member call "index" (.int 0) = .int delta.index ∧
    call.get? "id" = delta.id.json? ∧ member call "function" (.obj .nil) = .obj function ∧
    function.get? "name" = delta.name.json? ∧ function.get? "arguments" = delta.arguments.json?

structure Usage.Reads (x : Usage) (usage : Members) : Prop where
  prompt : usage.get? "prompt_tokens" = x.promptTokens.map Json.int
  completion : usage.get? "completion_tokens" = x.completionTokens.map Json.int
  cached : (∃ details, usage.get? "prompt_tokens_details" = some (.obj details) ∧
      details.get? "cached_tokens" = x.cachedTokens.map Json.int) ∨
    (x.cachedTokens = none ∧ ∀ details, usage.get? "prompt_tokens_details" ≠ some (.obj details))

/-- The list under `tool_calls`, or none. -/
def Listed {α : Type} (reads : α → Json → Prop) (xs : List α) (message : Members) : Prop :=
  (∃ items, message.get? "tool_calls" = some (.arr items) ∧ List.Forall₂ reads xs items.toList) ∨
    (xs = [] ∧ (message.get? "tool_calls" = none ∨ message.get? "tool_calls" = some .null))

/-- A frame with a choice, or one without any, such as the frame of the usage. -/
structure Frame.Reads (f : Frame) (data : Members) : Prop where
  choice : (∃ choice delta others, data.get? "choices" = some (.arr (.cons (.obj choice) others)) ∧
      member choice "delta" (.obj .nil) = .obj delta ∧ delta.get? "content" = f.content.json? ∧
      delta.get? "reasoning_content" = f.reasoning.json? ∧
      choice.get? "finish_reason" = f.finish.json? ∧
      Listed ToolDelta.Reads f.toolCalls delta) ∨
    (truthy (member data "choices" .null) = false ∧ f.content = .absent ∧ f.reasoning = .absent ∧
      f.finish = .absent ∧ f.toolCalls = [])
  usage : (∃ usage x, data.get? "usage" = some (.obj usage) ∧ f.usage = some x ∧ x.Reads usage) ∨
    (f.usage = none ∧ ∀ usage, data.get? "usage" ≠ some (.obj usage))

/-! ## What the reader makes of a frame -/

def Buffer.add (buffer : Buffer) (delta : ToolDelta) : Buffer where
  index := buffer.index
  id := delta.id.json?.getD buffer.id
  name := delta.name.json?.getD buffer.name
  arguments := buffer.arguments ++ delta.arguments.piece

def addDelta (chunks : ToolChunks) (delta : ToolDelta) : ToolChunks :=
  chunks.put ((bufferAt chunks delta.index).add delta)

def Usage.counts (x : Usage) : LLMUsage where
  promptTokens := max (x.promptTokens.getD 0 - x.cachedTokens.getD 0) 0
  completionTokens := x.completionTokens.getD 0
  cachedPromptTokens := x.cachedTokens.getD 0

def Field.chunk (field : Field) (chunk : Json → StreamChunk) : List StreamChunk :=
  if field.piece = "" then [] else [chunk (.str field.piece)]

variable {py : Python} {chunks : ToolChunks} {f : Frame} {data : Members}

@[simp] theorem index_bufferAt (chunks : ToolChunks) (index : Int) :
    (bufferAt chunks index).index = index := by
  unfold bufferAt
  cases h : chunks.find index with
  | none => rfl
  | some buffer => exact Table.key_of_find h

theorem addToolCall_of_reads {delta : ToolDelta} {item : Json} (h : delta.Reads item) :
    addToolCall py chunks item = some (addDelta chunks delta) := by
  obtain ⟨call, function, rfl, hindex, hid, hfunction, hname, harguments⟩ := h
  have htext : argumentsText py (member function "arguments" (.str "")) =
      delta.arguments.piece := by
    rw [member, harguments]
    cases delta.arguments <;> rfl
  simp only [addToolCall, dict?, Option.bind_eq_bind, Option.bind_some, hindex, int?, hfunction,
    htext]
  simp [addDelta, Buffer.add, member, hid, hname]

theorem foldlM_addToolCall {deltas : List ToolDelta} {items : List Json}
    (h : List.Forall₂ ToolDelta.Reads deltas items) (chunks : ToolChunks) :
    items.foldlM (addToolCall py) chunks = some (deltas.foldl addDelta chunks) := by
  induction h generalizing chunks with
  | nil => rfl
  | cons hread _ ih =>
    rw [List.foldlM_cons, addToolCall_of_reads hread, List.foldl_cons]
    exact ih _

theorem toolCallItems_of_listed {α : Type} {reads : α → Json → Prop} {xs : List α}
    {message : Members} (h : Listed reads xs message) :
    ∃ items, toolCallItems message = some items ∧ List.Forall₂ reads xs items := by
  rcases h with ⟨items, hitems, hreads⟩ | ⟨rfl, hnone | hnull⟩
  · cases items with
    | nil =>
      refine ⟨[], ?_, by simpa [Items.toList] using hreads⟩
      rw [toolCallItems, member, hitems]
      rfl
    | cons item rest =>
      refine ⟨_, ?_, hreads⟩
      rw [toolCallItems, member, hitems]
      rfl
  · refine ⟨[], ?_, .nil⟩
    rw [toolCallItems, member, hnone]
    rfl
  · refine ⟨[], ?_, .nil⟩
    rw [toolCallItems, member, hnull]
    rfl

theorem cachedCount_of_reads {usage : Members} {x : Usage} (h : x.Reads usage) :
    cachedCount usage = some (x.cachedTokens.getD 0) := by
  rw [cachedCount]
  rcases h.cached with ⟨details, hdetails, hcached⟩ | ⟨hnone, hdetails⟩
  · rw [hdetails]
    exact countOr_of_get? hcached
  · rw [hnone]
    split
    · rename_i details heq
      exact absurd heq (hdetails details)
    · rfl

theorem deltaChunk_of_get? {delta : Members} {key : String} {field : Field}
    (h : delta.get? key = field.json?) (chunk : Json → StreamChunk) :
    deltaChunk delta key chunk = field.chunk chunk := by
  rw [deltaChunk, h]
  cases field with
  | absent => rfl
  | null => rfl
  | text s =>
    by_cases hs : s = ""
    · subst hs
      rfl
    · simp [Field.json?, Field.chunk, Field.piece, truthy, hs]

/-- The counts that a frame reports. -/
def Frame.counts (f : Frame) : LLMUsage :=
  match f.usage with
  | some x => x.counts
  | none => {}

theorem usageStreamChunk_of_reads (h : f.Reads data) :
    ∃ out, usageStreamChunk data = some out ∧ gather py out = { usage := f.counts } := by
  rcases h.usage with ⟨usage, x, hget, hx, hreads⟩ | ⟨hnone, hget⟩
  · rw [usageStreamChunk, hget, Frame.counts, hx]
    dsimp only
    by_cases hnil : usage = .nil
    · subst hnil
      refine ⟨[], rfl, ?_⟩
      have hprompt : x.promptTokens = none := by simpa [Members.get?] using hreads.prompt
      have hcompletion : x.completionTokens = none := by
        simpa [Members.get?] using hreads.completion
      have hzero : x.cachedTokens = none := by
        rcases hreads.cached with ⟨details, hdetails, -⟩ | ⟨hnone, -⟩
        · cases hdetails
        · exact hnone
      simp [gather_nil, Usage.counts, hprompt, hcompletion, hzero]
    · rw [if_neg hnil]
      simp only [cachedCount_of_reads hreads, countOr_of_get? hreads.prompt,
        countOr_of_get? hreads.completion, Option.bind_eq_bind, Option.bind_some]
      exact ⟨_, rfl, by simp [gather, Gathered.add, Usage.counts]⟩
  · refine ⟨[], ?_, by rw [gather_nil, Frame.counts, hnone]⟩
    rw [usageStreamChunk]
    split
    · rename_i usage heq
      exact absurd heq (hget usage)
    · rfl

/-- What a frame adds apart from its tool calls. -/
def Frame.gathered (f : Frame) : Gathered where
  content := f.content.piece
  reasoning := f.reasoning.piece
  usage := f.counts

theorem gather_text (field : Field) :
    gather py (field.chunk .text) = { content := field.piece } := by
  unfold Field.chunk
  split
  · rename_i h
    rw [h]
    rfl
  · rename_i h
    simp [gather, Gathered.add, Python.textOf, Python.str, truthy, h]

theorem gather_reasoning (field : Field) :
    gather py (field.chunk .reasoning) = { reasoning := field.piece } := by
  unfold Field.chunk
  split
  · rename_i h
    rw [h]
    rfl
  · rename_i h
    simp [gather, Gathered.add, Python.textOf, Python.str, truthy, h]

/-- The tool calls that a flush makes of the table. -/
def flushed (py : Python) (chunks : ToolChunks) : List ToolCall :=
  ((chunks.entries.insertionSort fun a b => a.index ≤ b.index).filter fun buffer =>
    truthy buffer.name).filterMap fun buffer =>
      toolCall py buffer.id buffer.name (parseArgs py (.str buffer.arguments))

theorem gather_flushToolCalls (py : Python) (chunks : ToolChunks) :
    gather py (flushToolCalls py chunks) = { toolCalls := flushed py chunks } := by
  unfold flushToolCalls flushed
  generalize ((chunks.entries.insertionSort fun a b => a.index ≤ b.index).filter fun buffer =>
    truthy buffer.name) = buffers
  induction buffers with
  | nil => rfl
  | cons buffer buffers ih =>
    rw [List.map_cons, gather_cons, ih, List.filterMap_cons]
    cases h : toolCall py buffer.id buffer.name (parseArgs py (.str buffer.arguments)) with
    | none => simp [Gathered.add, Gathered.append, h]
    | some call => simp [Gathered.add, Gathered.append, h]

@[simp] theorem flushed_empty (py : Python) : flushed py .empty = [] := rfl

/-- Whether a frame flushes the table. -/
def Frame.finishes (f : Frame) : Bool := f.finish == .text "tool_calls"

/-- The response of some frames, when the table holds this already. -/
def gatherFrames (py : Python) : List Frame → ToolChunks → Gathered
  | [], chunks => { toolCalls := flushed py chunks }
  | f :: frames, chunks =>
    let chunks := f.toolCalls.foldl addDelta chunks
    if f.finishes then
      (f.gathered.append { toolCalls := flushed py chunks }).append (gatherFrames py frames .empty)
    else f.gathered.append (gatherFrames py frames chunks)

theorem parseStreamLine_of_reads {raw : List Char} (hraw : py.loads raw = some (.obj data))
    (h : f.Reads data) (chunks : ToolChunks) :
    ∃ out, parseStreamLine py raw chunks =
        some (out, if f.finishes then .empty else f.toolCalls.foldl addDelta chunks) ∧
      gather py out = if f.finishes then
        f.gathered.append { toolCalls := flushed py (f.toolCalls.foldl addDelta chunks) }
        else f.gathered := by
  obtain ⟨usage, husage, hgather⟩ := @usageStreamChunk_of_reads py f data h
  have hout : gather py (f.reasoning.chunk .reasoning ++ f.content.chunk .text ++ usage) =
      f.gathered := by
    rw [gather_append, gather_append, gather_reasoning, gather_text, hgather]
    simp [Gathered.append, Frame.gathered]
  rcases h.choice with ⟨choice, delta, others, hchoices, hdelta, hcontent, hreasoning, hfinish,
    hlisted⟩ | ⟨hchoices, hcontent, hreasoning, hfinish, htools⟩
  · obtain ⟨items, hitems, hreads⟩ := toolCallItems_of_listed hlisted
    have hchoice : firstChoice data = some choice := by
      rw [firstChoice, member, hchoices]
      rfl
    have hfinishes : finishesToolCalls choice = f.finishes := by
      rw [finishesToolCalls, hfinish, Frame.finishes]
      cases hf : f.finish <;> simp [Field.json?]
    simp only [parseStreamLine, hraw, dict?, hchoice, hdelta, hitems,
      foldlM_addToolCall hreads, husage, deltaChunk_of_get? hcontent, deltaChunk_of_get? hreasoning,
      hfinishes, Option.bind_eq_bind, Option.bind_some]
    cases hf : f.finishes with
    | false => exact ⟨_, rfl, hout⟩
    | true =>
      refine ⟨_, rfl, ?_⟩
      rw [gather_append, hout, gather_flushToolCalls]
      rfl
  · have hchoice : firstChoice data = some .nil := by
      rw [firstChoice, hchoices]
      rfl
    have hnot : f.finishes = false := by
      rw [Frame.finishes, hfinish]
      rfl
    have hempty : f.reasoning.chunk .reasoning ++ f.content.chunk .text ++ usage = usage := by
      rw [hcontent, hreasoning]
      rfl
    rw [hempty] at hout
    refine ⟨usage, ?_, by rw [hnot]; exact hout⟩
    simp only [parseStreamLine, hraw, hchoice, husage, dict?, Option.bind_eq_bind,
      Option.bind_some, hnot, htools]
    rfl

end NeuralHub.Adapters.OpenAI
