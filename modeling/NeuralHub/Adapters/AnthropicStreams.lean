/-
NeuralHub.Adapters.AnthropicStreams — content blocks, sent as events.

`Event.Reads` says what an event is to a reader of its JSON, and `Streams`
that events send some numbered blocks: of each block a start, deltas and a
stop, and those of different blocks in any order. `gatherEvents` is what
`complete_with_stream` makes of events.

What stops at an index depends on the events of this index alone
(`slot_foldl`).
-/
import NeuralHub.Adapters.Anthropic

namespace NeuralHub.Adapters.Anthropic

open NeuralHub.Lib
open NeuralHub.Plan (truthy)

/-! ## Events -/

/-- What a block starts with. -/
inductive Payload
  | text (text : String)
  | thinking (thinking signature : String)
  | toolUse (id name : String) (input : Members)
  deriving DecidableEq, Repr

inductive Delta
  | text (piece : String)
  | thinking (piece : String)
  | signature (piece : String)
  | inputJson (piece : String)
  deriving DecidableEq, Repr

structure Counts where
  input : Option Int := none
  output : Option Int := none
  cacheRead : Option Int := none
  cacheCreation : Option Int := none
  deriving DecidableEq, Repr

inductive Event
  | start (index : Int) (payload : Payload)
  | delta (index : Int) (delta : Delta)
  | stop (index : Int)
  | messageStart (counts : Counts)
  | messageDelta (counts : Counts)
  | other
  deriving DecidableEq, Repr

def Event.index? : Event → Option Int
  | .start index _ => some index
  | .delta index _ => some index
  | .stop index => some index
  | _ => none

/-- A text, where an empty one may be absent. -/
def HasText (data : Members) (key text : String) : Prop :=
  data.get? key = some (.str text) ∨ (text = "" ∧ data.get? key = none)

def Payload.Reads (block : Members) : Payload → Prop
  | .text content => block.get? "type" = some (.str "text") ∧ HasText block "text" content
  | .thinking thought signature => block.get? "type" = some (.str "thinking") ∧
      HasText block "thinking" thought ∧ HasText block "signature" signature
  | .toolUse id name input => block.get? "type" = some (.str "tool_use") ∧
      block.get? "id" = some (.str id) ∧ block.get? "name" = some (.str name) ∧
      asRecord (member block "input" .null) = input

def Delta.Reads (delta : Members) : Delta → Prop
  | .text piece => delta.get? "type" = some (.str "text_delta") ∧ HasText delta "text" piece
  | .thinking piece =>
    delta.get? "type" = some (.str "thinking_delta") ∧ HasText delta "thinking" piece
  | .signature piece =>
    delta.get? "type" = some (.str "signature_delta") ∧ HasText delta "signature" piece
  | .inputJson piece =>
    delta.get? "type" = some (.str "input_json_delta") ∧ HasText delta "partial_json" piece

/-- A count, which may be absent or null. -/
def HasCount (usage : Members) (key : String) (n : Option Int) : Prop :=
  usage.get? key = n.map Json.int ∨ (n = none ∧ usage.get? key = some .null)

structure Counts.Reads (x : Counts) (usage : Members) : Prop where
  input : HasCount usage "input_tokens" x.input
  output : HasCount usage "output_tokens" x.output
  cacheRead : HasCount usage "cache_read_input_tokens" x.cacheRead
  cacheCreation : HasCount usage "cache_creation_input_tokens" x.cacheCreation

def eventTypes : List String :=
  ["content_block_start", "content_block_delta", "content_block_stop", "message_start",
    "message_delta", "message_stop", "error"]

def Event.Reads (eventType : String) (data : Members) : Event → Prop
  | .start index payload => eventType = "content_block_start" ∧ indexOf data = some index ∧
      ∃ block, data.get? "content_block" = some (.obj block) ∧ payload.Reads block
  | .delta index d => eventType = "content_block_delta" ∧ indexOf data = some index ∧
      ∃ members, data.get? "delta" = some (.obj members) ∧ d.Reads members
  | .stop index => eventType = "content_block_stop" ∧ indexOf data = some index
  | .messageStart counts => eventType = "message_start" ∧
      ∃ message usage, data.get? "message" = some (.obj message) ∧
        message.get? "usage" = some (.obj usage) ∧ counts.Reads usage
  | .messageDelta counts => eventType = "message_delta" ∧
      ∃ usage, data.get? "usage" = some (.obj usage) ∧ counts.Reads usage
  | .other => eventType ∉ eventTypes ∨
      (eventType = "message_start" ∧ ∀ message usage, data.get? "message" = some (.obj message) →
        message.get? "usage" ≠ some (.obj usage)) ∨
      (eventType = "message_delta" ∧ ∀ usage, data.get? "usage" ≠ some (.obj usage))

/-! ## What the reader makes of an event -/

def Blocks.start (blocks : Blocks) (index : Int) : Payload → Blocks
  | .text _ => blocks
  | .thinking thought signature =>
    let slot := blocks.thinkingSlot index
    blocks.putThinking { slot with
      thinking := slot.thinking ++ thought, signature := slot.signature ++ signature }
  | .toolUse id name input => blocks.putTool { index, id := .str id, name := .str name, input }

def Blocks.delta (blocks : Blocks) (index : Int) : Delta → Blocks
  | .text _ => blocks
  | .thinking piece =>
    let slot := blocks.thinkingSlot index
    if piece = "" then blocks
    else blocks.putThinking { slot with thinking := slot.thinking ++ piece }
  | .signature piece =>
    let slot := blocks.thinkingSlot index
    blocks.putThinking { slot with signature := slot.signature ++ piece }
  | .inputJson piece =>
    let block := blocks.toolBlock index
    blocks.putTool { block with json := block.json ++ piece }

def Blocks.step (py : Python) (blocks : Blocks) : Event → Blocks
  | .start index payload => blocks.start index payload
  | .delta index delta => blocks.delta index delta
  | .stop index => (blocks.stop py index).2
  | _ => blocks

/-- A chunk for a piece that is not empty. -/
def pieceChunk (piece : String) (chunk : Json → StreamChunk) : Option StreamChunk :=
  if piece = "" then none else some (chunk (.str piece))

/-- The counts of an event; the output that a message starts with is none. -/
def Event.usage : Event → LLMUsage
  | .messageStart x =>
    { promptTokens := x.input.getD 0
      cachedPromptTokens := x.cacheRead.getD 0
      cacheCreationPromptTokens := x.cacheCreation.getD 0 }
  | .messageDelta x =>
    { promptTokens := x.input.getD 0
      completionTokens := x.output.getD 0
      cachedPromptTokens := x.cacheRead.getD 0
      cacheCreationPromptTokens := x.cacheCreation.getD 0 }
  | _ => {}

def Event.chunk (py : Python) (blocks : Blocks) : Event → Option StreamChunk
  | .delta _ (.text piece) => pieceChunk piece .text
  | .delta _ (.thinking piece) => pieceChunk piece .reasoning
  | .stop index => (blocks.stop py index).1
  | event@(.messageStart _) => some (.usage event.usage)
  | event@(.messageDelta _) => some (.usage event.usage)
  | _ => none

variable {py : Python} {blocks : Blocks} {event : Event} {data : Members}

theorem str_member_of_hasText {key text : String} (h : HasText data key text) :
    py.str (member data key (.str "")) = text := by
  rcases h with hget | ⟨rfl, hnone⟩
  · rw [member, hget]
    rfl
  · rw [member, hnone]
    rfl

theorem member_null_of_hasText {key text : String} (h : HasText data key text) :
    truthy (member data key .null) = (text ≠ "" : Bool) ∧
      (text ≠ "" → member data key .null = .str text) := by
  rcases h with hget | ⟨rfl, hnone⟩
  · rw [member, hget]
    simp [truthy]
  · rw [member, hnone]
    simp [truthy]

theorem countOr_of_hasCount {key : String} {n : Option Int} (h : HasCount data key n) :
    countOr data key = some (n.getD 0) := by
  rcases h with hget | ⟨rfl, hnull⟩
  · exact countOr_of_get? hget
  · rw [countOr, member, hnull]
    rfl

theorem isType_of_get? {type : String} (h : data.get? "type" = some (.str type)) (other : String) :
    isType data other = decide (type = other) := by
  rw [isType, h]
  by_cases heq : type = other
  · simp [heq]
  · simp [heq]

theorem startChunk_of_reads {index : Int} {payload : Payload} {block : Members}
    (hindex : indexOf data = some index) (hget : data.get? "content_block" = some (.obj block))
    (h : payload.Reads block) :
    startChunk py data blocks = some (blocks.start index payload) := by
  have hblock : dict? (member data "content_block" (.obj .nil)) = some block := by
    rw [member, hget]
    rfl
  cases payload with
  | text content =>
    obtain ⟨htype, -⟩ := h
    simp [startChunk, hblock, isType_of_get? htype, Blocks.start]
  | thinking thinking signature =>
    obtain ⟨htype, hthinking, hsignature⟩ := h
    simp [startChunk, hblock, isType_of_get? htype, hindex, Blocks.start,
      str_member_of_hasText hthinking, str_member_of_hasText hsignature]
  | toolUse id name input =>
    obtain ⟨htype, hid, hname, hinput⟩ := h
    have hmember : ∀ {key text : String}, block.get? key = some (.str text) →
        member block key (.str "") = .str text := by
      intro key text hkey
      rw [member, hkey]
      rfl
    simp [startChunk, hblock, isType_of_get? htype, hindex, Blocks.start, hmember hid,
      hmember hname, hinput]

theorem deltaChunk_of_reads {index : Int} {delta : Delta} {members : Members}
    (hindex : indexOf data = some index) (hget : data.get? "delta" = some (.obj members))
    (h : delta.Reads members) :
    deltaChunk py data blocks =
      some ((Event.delta index delta).chunk py blocks, blocks.delta index delta) := by
  have hdelta : dict? (member data "delta" (.obj .nil)) = some members := by
    rw [member, hget]
    rfl
  cases delta with
  | text piece =>
    obtain ⟨htype, htext⟩ := h
    obtain ⟨htruthy, hmember⟩ := member_null_of_hasText htext
    by_cases hpiece : piece = ""
    · simp [deltaChunk, hdelta, hindex, isType_of_get? htype, htruthy, hpiece, Event.chunk,
        pieceChunk, Blocks.delta]
    · simp [deltaChunk, hdelta, hindex, isType_of_get? htype, hmember hpiece, truthy, hpiece,
        Event.chunk, pieceChunk, Blocks.delta]
  | thinking piece =>
    obtain ⟨htype, htext⟩ := h
    obtain ⟨htruthy, hmember⟩ := member_null_of_hasText htext
    by_cases hpiece : piece = ""
    · simp [deltaChunk, hdelta, hindex, isType_of_get? htype, htruthy, hpiece, Event.chunk,
        pieceChunk, Blocks.delta]
    · simp [deltaChunk, hdelta, hindex, isType_of_get? htype, hmember hpiece, truthy, hpiece,
        Event.chunk, pieceChunk, Blocks.delta, Python.str]
  | signature piece =>
    obtain ⟨htype, htext⟩ := h
    simp [deltaChunk, hdelta, hindex, isType_of_get? htype, str_member_of_hasText htext,
      Event.chunk, Blocks.delta]
  | inputJson piece =>
    obtain ⟨htype, htext⟩ := h
    simp [deltaChunk, hdelta, hindex, isType_of_get? htype, str_member_of_hasText htext,
      Event.chunk, Blocks.delta]

/-- **What the reader makes of a line.** -/
theorem parseStreamLine_of_reads {eventType raw : String} (hraw : raw ≠ "[DONE]")
    (hloads : py.loads raw.toList = some (.obj data)) (h : event.Reads eventType data) :
    parseStreamLine py eventType raw blocks =
      some (event.chunk py blocks, blocks.step py event) := by
  have hdict : dict? (.obj data) = some data := rfl
  cases event with
  | start index payload =>
    obtain ⟨rfl, hindex, block, hget, hreads⟩ := h
    simp [parseStreamLine, hraw, hloads, hdict, startChunk_of_reads hindex hget hreads, Event.chunk,
      Blocks.step]
  | delta index delta =>
    obtain ⟨rfl, hindex, members, hget, hreads⟩ := h
    simp [parseStreamLine, hraw, hloads, hdict, deltaChunk_of_reads hindex hget hreads, Blocks.step]
  | stop index =>
    obtain ⟨rfl, hindex⟩ := h
    simp [parseStreamLine, hraw, hloads, hdict, stopChunk, hindex, Event.chunk, Blocks.step]
  | messageStart x =>
    obtain ⟨rfl, message, usage, hmessage, husage, hreads⟩ := h
    simp [parseStreamLine, hraw, hloads, hdict, messageStartUsage, hmessage, husage,
      countOr_of_hasCount hreads.input, countOr_of_hasCount hreads.cacheRead,
      countOr_of_hasCount hreads.cacheCreation, Event.chunk, Event.usage, Blocks.step]
  | messageDelta x =>
    obtain ⟨rfl, usage, husage, hreads⟩ := h
    simp [parseStreamLine, hraw, hloads, hdict, messageDeltaUsage, husage,
      countOr_of_hasCount hreads.input, countOr_of_hasCount hreads.output,
      countOr_of_hasCount hreads.cacheRead, countOr_of_hasCount hreads.cacheCreation, Event.chunk,
      Event.usage, Blocks.step]
  | other =>
    rcases h with hother | ⟨rfl, hnone⟩ | ⟨rfl, hnone⟩
    · have hnot : ∀ type ∈ eventTypes, eventType ≠ type :=
        fun type htype heq => hother (heq ▸ htype)
      simp only [eventTypes, List.forall_mem_cons] at hnot
      obtain ⟨hstart, hdelta, hstop, hmessageStart, hmessageDelta, hmessageStop, herror, -⟩ := hnot
      simp [parseStreamLine, hraw, hloads, hstart, hdelta, hstop, hmessageStart, hmessageDelta,
        hmessageStop, herror, Event.chunk, Blocks.step]
    · have husage : messageStartUsage data = some none := by
        unfold messageStartUsage
        split
        · rename_i message hmessage
          split
          · rename_i usage husage
            exact absurd husage (hnone message usage hmessage)
          · rfl
        · rfl
      simp [parseStreamLine, hraw, hloads, hdict, husage, Event.chunk, Blocks.step]
    · have husage : messageDeltaUsage data = some none := by
        unfold messageDeltaUsage
        split
        · rename_i usage husage
          exact absurd husage (hnone usage)
        · rfl
      simp [parseStreamLine, hraw, hloads, hdict, husage, Event.chunk, Blocks.step]

/-! ## The events of one index -/

/-- What stands at an index. -/
structure Slot where
  tool : Option ToolBlock := none
  thinking : Option ThinkingSlot := none

def Blocks.slot (blocks : Blocks) (index : Int) : Slot where
  tool := blocks.tools.find index
  thinking := blocks.thinking.find index

@[simp] theorem slot_empty (index : Int) : ({} : Blocks).slot index = {} := rfl

/-- What becomes of a slot when its block stops. -/
def Slot.chunk (py : Python) (slot : Slot) : Option StreamChunk :=
  match slot.thinking with
  | some thinking => some (.reasoning (.obj thinking.record))
  | none => slot.tool.map fun block => toolChunk py block.id block.name (block.arguments py)

theorem chunk_stop (blocks : Blocks) (index : Int) :
    (blocks.stop py index).1 = (blocks.slot index).chunk py := by
  unfold Blocks.stop Slot.chunk Blocks.slot
  cases blocks.thinking.find index with
  | some slot => rfl
  | none => cases blocks.tools.find index <;> rfl

theorem slot_putTool (blocks : Blocks) (block : ToolBlock) (index : Int) :
    (blocks.putTool block).slot index =
      if index = block.index then { blocks.slot index with tool := some block }
      else blocks.slot index := by
  simp only [Blocks.slot, Blocks.putTool, Table.find_put]
  split <;> rfl

theorem slot_putThinking (blocks : Blocks) (slot : ThinkingSlot) (index : Int) :
    (blocks.putThinking slot).slot index =
      if index = slot.index then { blocks.slot index with thinking := some slot }
      else blocks.slot index := by
  simp only [Blocks.slot, Blocks.putThinking, Table.find_put]
  split <;> rfl

@[simp] theorem index_toolBlock (blocks : Blocks) (index : Int) :
    (blocks.toolBlock index).index = index := by
  unfold Blocks.toolBlock
  cases h : blocks.tools.find index with
  | none => rfl
  | some block => exact Table.key_of_find h

@[simp] theorem index_thinkingSlot (blocks : Blocks) (index : Int) :
    (blocks.thinkingSlot index).index = index := by
  unfold Blocks.thinkingSlot
  cases h : blocks.thinking.find index with
  | none => rfl
  | some slot => exact Table.key_of_find h

theorem toolBlock_eq (blocks : Blocks) (index : Int) :
    blocks.toolBlock index = (blocks.slot index).tool.getD { index } := rfl

theorem thinkingSlot_eq (blocks : Blocks) (index : Int) :
    blocks.thinkingSlot index = (blocks.slot index).thinking.getD { index } := rfl

/-- An event leaves the slots of other indexes as they are. -/
theorem slot_step_of_ne {index : Int} (h : event.index? ≠ some index) :
    (blocks.step py event).slot index = blocks.slot index := by
  cases event with
  | start i payload =>
    have hne : index ≠ i := fun heq => h (heq ▸ rfl)
    cases payload with
    | text content => rfl
    | thinking thought signature => simp [Blocks.step, Blocks.start, slot_putThinking, hne]
    | toolUse id name input => simp [Blocks.step, Blocks.start, slot_putTool, hne]
  | delta i delta =>
    have hne : index ≠ i := fun heq => h (heq ▸ rfl)
    cases delta with
    | text piece => rfl
    | thinking piece =>
      by_cases hpiece : piece = ""
      · simp [Blocks.step, Blocks.delta, hpiece]
      · simp [Blocks.step, Blocks.delta, hpiece, slot_putThinking, hne]
    | signature piece => simp [Blocks.step, Blocks.delta, slot_putThinking, hne]
    | inputJson piece => simp [Blocks.step, Blocks.delta, slot_putTool, hne]
  | stop i =>
    have hne : index ≠ i := fun heq => h (heq ▸ rfl)
    simp only [Blocks.step, Blocks.stop]
    cases blocks.thinking.find i with
    | some slot => simp [Blocks.slot, Table.find_erase, hne]
    | none =>
      cases blocks.tools.find i with
      | some block => simp [Blocks.slot, Table.find_erase, hne]
      | none => rfl
  | messageStart counts => rfl
  | messageDelta counts => rfl
  | other => rfl

/-- What an event that stops nothing makes of its slot, it makes of the slot alone. -/
theorem slot_step_congr {others : Blocks} {index : Int}
    (hslot : blocks.slot index = others.slot index) (hindex : event.index? = some index)
    (hstop : event ≠ .stop index) :
    (blocks.step py event).slot index = (others.step py event).slot index := by
  cases event with
  | start i payload =>
    cases hindex
    cases payload with
    | text content => exact hslot
    | thinking thought signature =>
      simp [Blocks.step, Blocks.start, slot_putThinking, thinkingSlot_eq, hslot]
    | toolUse id name input => simp [Blocks.step, Blocks.start, slot_putTool, hslot]
  | delta i delta =>
    cases hindex
    cases delta with
    | text piece => exact hslot
    | thinking piece =>
      by_cases hpiece : piece = ""
      · simp [Blocks.step, Blocks.delta, hpiece, hslot]
      · simp [Blocks.step, Blocks.delta, hpiece, slot_putThinking, thinkingSlot_eq, hslot]
    | signature piece =>
      simp [Blocks.step, Blocks.delta, slot_putThinking, thinkingSlot_eq, hslot]
    | inputJson piece => simp [Blocks.step, Blocks.delta, slot_putTool, toolBlock_eq, hslot]
  | stop i => exact absurd (by cases hindex; rfl) hstop
  | messageStart counts => cases hindex
  | messageDelta counts => cases hindex
  | other => cases hindex

/-- **A slot is what the events of its index make of it.** -/
theorem slot_foldl {events : List Event} {others : Blocks} {index : Int}
    (hstop : Event.stop index ∉ events) (hslot : blocks.slot index = others.slot index) :
    (events.foldl (Blocks.step py) blocks).slot index =
      ((events.filter (·.index? = some index)).foldl (Blocks.step py) others).slot index := by
  induction events generalizing blocks others with
  | nil => exact hslot
  | cons event events ih =>
    rw [List.mem_cons, not_or] at hstop
    obtain ⟨hne, hstop⟩ := hstop
    rw [List.foldl_cons]
    by_cases hindex : event.index? = some index
    · rw [List.filter_cons_of_pos (by simpa using hindex), List.foldl_cons]
      exact ih hstop (slot_step_congr hslot hindex (Ne.symm hne))
    · rw [List.filter_cons_of_neg (by simpa using hindex)]
      exact ih hstop ((slot_step_of_ne hindex).trans hslot)

/-! ## What is gathered -/

/-- The response of some events, when this stands in the tables already. -/
def gatherEvents (py : Python) : List Event → Blocks → Gathered
  | [], _ => {}
  | event :: events, blocks =>
    (gather py (event.chunk py blocks).toList).append
      (gatherEvents py events (blocks.step py event))

def Event.textPiece : Event → String
  | .delta _ (.text piece) => piece
  | _ => ""

def Event.thinkingPiece : Event → String
  | .delta _ (.thinking piece) => piece
  | _ => ""

/-- The index at which an event stops a block. -/
def Event.stop? : Event → Option Int
  | .stop index => some index
  | _ => none

theorem gather_pieceChunk_text (piece : String) :
    gather py (pieceChunk piece .text).toList = { content := piece } := by
  unfold pieceChunk
  split
  · rename_i h
    rw [h]
    rfl
  · rename_i h
    simp [gather, Gathered.add, Python.textOf, Python.str, truthy, h]

theorem gather_pieceChunk_reasoning (piece : String) :
    gather py (pieceChunk piece .reasoning).toList = { reasoning := piece } := by
  unfold pieceChunk
  split
  · rename_i h
    rw [h]
    rfl
  · rename_i h
    simp [gather, Gathered.add, Python.textOf, Python.str, truthy, h]

/-- What a stopped block adds is a tool call or a thinking block. -/
theorem gather_slot (slot : Slot) :
    gather py (slot.chunk py).toList =
      { toolCalls := (gather py (slot.chunk py).toList).toolCalls
        thinkingBlocks := (gather py (slot.chunk py).toList).thinkingBlocks } := by
  unfold Slot.chunk
  cases slot.thinking with
  | some thinking => simp [gather, Gathered.add]
  | none =>
    cases slot.tool with
    | none => rfl
    | some block => simp [gather, Gathered.add, toolChunk]

/-- What is gathered of an event, kind by kind. -/
theorem gather_chunk (event : Event) (blocks : Blocks) :
    gather py (event.chunk py blocks).toList =
      { content := event.textPiece
        reasoning := event.thinkingPiece
        usage := event.usage
        toolCalls := (event.stop?.map fun index =>
          (gather py ((blocks.slot index).chunk py).toList).toolCalls).getD []
        thinkingBlocks := (event.stop?.map fun index =>
          (gather py ((blocks.slot index).chunk py).toList).thinkingBlocks).getD [] } := by
  cases event with
  | start index payload => rfl
  | delta index delta =>
    cases delta with
    | text piece => exact gather_pieceChunk_text piece
    | thinking piece => exact gather_pieceChunk_reasoning piece
    | signature piece => rfl
    | inputJson piece => rfl
  | stop index =>
    rw [Event.chunk, chunk_stop]
    exact gather_slot _
  | messageStart counts => simp [Event.chunk, gather, Gathered.add, Event.textPiece,
      Event.thinkingPiece, Event.stop?]
  | messageDelta counts => simp [Event.chunk, gather, Gathered.add, Event.textPiece,
      Event.thinkingPiece, Event.stop?]
  | other => rfl

theorem content_gatherEvents (events : List Event) (blocks : Blocks) :
    (gatherEvents py events blocks).content = String.join (events.map Event.textPiece) := by
  induction events generalizing blocks with
  | nil => rfl
  | cons event events ih =>
    rw [gatherEvents, gather_chunk, List.map_cons, String.join_cons, ← ih (blocks.step py event)]
    rfl

theorem reasoning_gatherEvents (events : List Event) (blocks : Blocks) :
    (gatherEvents py events blocks).reasoning = String.join (events.map Event.thinkingPiece) := by
  induction events generalizing blocks with
  | nil => rfl
  | cons event events ih =>
    rw [gatherEvents, gather_chunk, List.map_cons, String.join_cons, ← ih (blocks.step py event)]
    rfl

theorem usage_gatherEvents (events : List Event) (blocks : Blocks) :
    (gatherEvents py events blocks).usage = (events.map Event.usage).foldr mergeUsage {} := by
  induction events generalizing blocks with
  | nil => rfl
  | cons event events ih =>
    rw [gatherEvents, gather_chunk, List.map_cons, List.foldr_cons, ← ih (blocks.step py event)]
    rfl

/-- Tool calls and thinking blocks come in the order in which their blocks stop. -/
theorem stopped_gatherEvents {chunks : Int → Option StreamChunk} (events : List Event)
    {blocks : Blocks} (h : ∀ first index rest, events = first ++ .stop index :: rest →
      ((first.foldl (Blocks.step py) blocks).slot index).chunk py = chunks index) :
    (gatherEvents py events blocks).toolCalls = (events.filterMap Event.stop?).flatMap
        (fun index => (gather py (chunks index).toList).toolCalls) ∧
      (gatherEvents py events blocks).thinkingBlocks = (events.filterMap Event.stop?).flatMap
        (fun index => (gather py (chunks index).toList).thinkingBlocks) := by
  induction events generalizing blocks with
  | nil => exact ⟨rfl, rfl⟩
  | cons event events ih =>
    have hrest : ∀ first index rest, events = first ++ .stop index :: rest →
        ((first.foldl (Blocks.step py) (blocks.step py event)).slot index).chunk py =
          chunks index := fun first index rest heq =>
      h (event :: first) index rest (by rw [heq]; rfl)
    obtain ⟨htools, hthinking⟩ := ih hrest
    rw [gatherEvents, gather_chunk]
    simp only [Gathered.append, htools, hthinking, List.filterMap_cons]
    cases hstop : event.stop? with
    | none => exact ⟨rfl, rfl⟩
    | some index =>
      have hevent : event = .stop index := by
        cases event <;> simp_all [Event.stop?]
      have hchunk := h [] index events (by rw [hevent]; rfl)
      simp only [List.foldl_nil] at hchunk
      simp [hchunk]

end NeuralHub.Adapters.Anthropic
