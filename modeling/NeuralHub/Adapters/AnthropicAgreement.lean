/-
NeuralHub.Adapters.AnthropicAgreement — a streamed response and the plain
one.

Counts agree, however the events are ordered. Text comes in the order of
the deltas and what a block starts with is not taken; tool calls and
thoughts come in the order in which their blocks stop, and the names of
tools are stripped. `BlocksInOrder` is what of this is left to the sender,
and `streamed_blocks_agree_iff` that nothing else can go wrong. Blocks that are
sent one behind the other are in order (`blocksInOrder_of_oneByOne`).
-/
import NeuralHub.Adapters.AnthropicStreams

namespace NeuralHub.Adapters.Anthropic

open NeuralHub.Lib

variable {py : Python} {events : List Event} {lines : List (List Char)}

/-! ## Messages and how they are sent -/

/-- A content block. -/
inductive Block
  | text (text : String)
  | thinking (thinking signature : String)
  | toolUse (id name : String) (input : Members)
  deriving DecidableEq, Repr

structure Numbered where
  index : Int
  block : Block
  deriving DecidableEq, Repr

structure AssistantMessage where
  numbered : Table Numbered.index
  usage : LLMUsage

/-- The content blocks in their order. -/
def AssistantMessage.blocks (m : AssistantMessage) : List Block :=
  m.numbered.entries.map (·.block)

/-- The keys of a thinking block. -/
def thinkingKeys : List String := ["type", "thinking", "signature"]

def Block.Reads (members : Members) : Block → Prop
  | .text content => members.get? "type" = some (.str "text") ∧ HasText members "text" content
  | .thinking thought signature => members.get? "type" = some (.str "thinking") ∧
      members.get? "thinking" = some (.str thought) ∧
      members.get? "signature" = some (.str signature) ∧
      ∀ key, key ∉ thinkingKeys → members.get? key = none
  | .toolUse id name input => members.get? "type" = some (.str "tool_use") ∧
      members.get? "id" = some (.str id) ∧ members.get? "name" = some (.str name) ∧
      (members.get? "input" = some (.obj input) ∨ (input = .nil ∧ members.get? "input" = none))

/-- A count, where zero may be absent. -/
def ReadsCount (usage : Members) (key : String) (n : Int) : Prop :=
  usage.get? key = some (.int n) ∨ (n = 0 ∧ usage.get? key = none)

structure ReadsUsage (usage : Members) (x : LLMUsage) : Prop where
  input : ReadsCount usage "input_tokens" x.promptTokens
  output : ReadsCount usage "output_tokens" x.completionTokens
  cacheRead : ReadsCount usage "cache_read_input_tokens" x.cachedPromptTokens
  cacheCreation : ReadsCount usage "cache_creation_input_tokens" x.cacheCreationPromptTokens

/-- The plain response of the message. -/
structure AssistantMessage.Reads (m : AssistantMessage) (data : Members) : Prop where
  success : data.get? "success" ≠ some (.bool false)
  content : ∃ blocks, data.get? "content" = some (.arr (objects blocks)) ∧
    List.Forall₂ (fun block members => block.Reads members) m.blocks blocks
  usage : ∃ usage, member data "usage" (.obj .nil) = .obj usage ∧ ReadsUsage usage m.usage

/-- The input of a tool call, in pieces or at the start. -/
def SendsInput (py : Python) (input first : Members) (json : String) : Prop :=
  (first = .nil ∨ first = input) ∧
    if json = "" then first = input else py.loads json.toList = some (.obj input)

def Delta.thinkingPiece : Delta → String
  | .thinking piece => piece
  | _ => ""

def Delta.signaturePiece : Delta → String
  | .signature piece => piece
  | _ => ""

/-- The events of a block. -/
def SendsBlock (py : Python) (index : Int) (events : List Event) : Block → Prop
  | .text content => ∃ (first : String) (pieces : List String),
      events = .start index (.text first) :: (pieces.map Delta.text).map (.delta index) ++
        [.stop index] ∧ first ++ String.join pieces = content
  | .thinking thought signature => ∃ (first sign : String) (deltas : List Delta),
      events = .start index (.thinking first sign) :: deltas.map (.delta index) ++ [.stop index] ∧
        (∀ delta ∈ deltas, ∃ piece, delta = .thinking piece ∨ delta = .signature piece) ∧
        first ++ String.join (deltas.map Delta.thinkingPiece) = thought ∧
        sign ++ String.join (deltas.map Delta.signaturePiece) = signature
  | .toolUse id name input => ∃ (first : Members) (pieces : List String),
      events = .start index (.toolUse id name first) ::
        (pieces.map Delta.inputJson).map (.delta index) ++ [.stop index] ∧
        SendsInput py input first (String.join pieces)

/-- The last one that is not zero. -/
def lastReport (counts : List Int) : Int :=
  counts.foldr (fun n last => if last ≠ 0 then last else n) 0

/-- The events send the message. Of a count that is reported more than once
the last report that is not zero counts. -/
structure Streams (py : Python) (m : AssistantMessage) (events : List Event) : Prop where
  blocks : ∀ n ∈ m.numbered.entries,
    SendsBlock py n.index (events.filter (·.index? = some n.index)) n.block
  indexes : ∀ event ∈ events, ∀ index, event.index? = some index →
    (m.numbered.find index).isSome
  input : lastReport (events.map (·.usage.promptTokens)) = m.usage.promptTokens
  output : lastReport (events.map (·.usage.completionTokens)) = m.usage.completionTokens
  cacheRead : lastReport (events.map (·.usage.cachedPromptTokens)) = m.usage.cachedPromptTokens
  cacheCreation : lastReport (events.map (·.usage.cacheCreationPromptTokens)) =
    m.usage.cacheCreationPromptTokens

/-- The lines carry the events, up to the end of the message or of the lines. -/
inductive Carries (py : Python) : String → List (List Char) → List Event → Prop
  | nil {type : String} : Carries py type [] []
  | done {type raw : String} {line : List Char} {lines : List (List Char)} :
      field? "event:" line = none → field? "data:" line = some raw →
      raw = "[DONE]" ∨ type = "message_stop" → Carries py type (line :: lines) []
  | event {type next : String} {line : List Char} {lines : List (List Char)}
      {events : List Event} : field? "event:" line = some next → Carries py next lines events →
      Carries py type (line :: lines) events
  | blank {type : String} {line : List Char} {lines : List (List Char)} {events : List Event} :
      field? "event:" line = none → field? "data:" line = none → Carries py type lines events →
      Carries py type (line :: lines) events
  | data {type raw : String} {line : List Char} {lines : List (List Char)} {event : Event}
      {events : List Event} {data : Members} : field? "event:" line = none →
      field? "data:" line = some raw → raw ≠ "[DONE]" → py.loads raw.toList = some (.obj data) →
      event.Reads type data → Carries py type lines events →
      Carries py type (line :: lines) (event :: events)

/-! ## What the lines give -/

theorem chunk_ne_done (event : Event) (blocks : Blocks) : event.chunk py blocks ≠ some .done := by
  cases event with
  | start index payload => simp [Event.chunk]
  | delta index delta =>
    cases delta with
    | text piece => simp [Event.chunk, pieceChunk]
    | thinking piece => simp [Event.chunk, pieceChunk]
    | signature piece => simp [Event.chunk]
    | inputJson piece => simp [Event.chunk]
  | stop index =>
    rw [Event.chunk, chunk_stop, Slot.chunk]
    cases (blocks.slot index).thinking with
    | some slot => simp
    | none => cases (blocks.slot index).tool <;> simp [toolChunk]
  | messageStart counts => simp [Event.chunk]
  | messageDelta counts => simp [Event.chunk]
  | other => simp [Event.chunk]

theorem handleLines_of_carries {type : String} (h : Carries py type lines events)
    (blocks : Blocks) :
    ∃ out, handleLines py type lines blocks = some out ∧ out ≠ [] ∧
      gather py out = gatherEvents py events blocks := by
  induction h generalizing blocks with
  | nil => exact ⟨[.done], rfl, by simp, rfl⟩
  | done hevent hdata hdone =>
    refine ⟨[.done], ?_, by simp, rfl⟩
    rw [handleLines, hevent]
    simp only [hdata, parseStreamLine, if_pos hdone, Option.bind_eq_bind, Option.bind_some,
      if_true]
    rfl
  | event hevent _ ih =>
    obtain ⟨out, hout, hne, hgather⟩ := ih blocks
    exact ⟨out, by rw [handleLines, hevent]; exact hout, hne, hgather⟩
  | blank hevent hdata _ ih =>
    obtain ⟨out, hout, hne, hgather⟩ := ih blocks
    exact ⟨out, by rw [handleLines, hevent]; simpa only [hdata] using hout, hne, hgather⟩
  | @data type raw line lines event events data hevent hdata hraw hloads hreads _ ih =>
    obtain ⟨rest, hrest, hne, hgather⟩ := ih (blocks.step py event)
    refine ⟨(event.chunk py blocks).toList ++ rest, ?_, by simp [hne], ?_⟩
    · rw [handleLines, hevent]
      simp only [hdata, parseStreamLine_of_reads hraw hloads hreads, Option.bind_eq_bind,
        Option.bind_some, if_neg (chunk_ne_done event blocks), hrest]
      rfl
    · rw [gather_append, hgather, gatherEvents]

/-! ## A block by itself -/

/-- What becomes of a block when it stops. -/
def Block.chunk (py : Python) : Block → Option StreamChunk
  | .text _ => none
  | .thinking thought signature => some (.reasoning (.obj (thinkingRecord thought signature)))
  | .toolUse id name input => some (toolChunk py (.str id) (.str name) input)

theorem foldl_text (index : Int) (pieces : List String) (blocks : Blocks) :
    ((pieces.map Delta.text).map (Event.delta index)).foldl (Blocks.step py) blocks = blocks := by
  induction pieces generalizing blocks with
  | nil => rfl
  | cons piece pieces ih => exact ih blocks

theorem slot_foldl_thinking {index : Int} {deltas : List Delta}
    (h : ∀ delta ∈ deltas, ∃ piece, delta = .thinking piece ∨ delta = .signature piece)
    {blocks : Blocks} {thought signature : String}
    (hslot : blocks.slot index = { thinking := some ⟨index, thought, signature⟩ }) :
    ((deltas.map (Event.delta index)).foldl (Blocks.step py) blocks).slot index =
      { thinking := some ⟨index, thought ++ String.join (deltas.map Delta.thinkingPiece),
          signature ++ String.join (deltas.map Delta.signaturePiece)⟩ } := by
  induction deltas generalizing blocks thought signature with
  | nil => simpa using hslot
  | cons delta deltas ih =>
    obtain ⟨hdelta, hdeltas⟩ := List.forall_mem_cons.mp h
    rw [List.map_cons, List.foldl_cons]
    obtain ⟨piece, rfl | rfl⟩ := hdelta
    · have hnext : (blocks.step py (.delta index (.thinking piece))).slot index =
          { thinking := some ⟨index, thought ++ piece, signature⟩ } := by
        by_cases hpiece : piece = ""
        · simp [Blocks.step, Blocks.delta, hpiece, hslot]
        · simp [Blocks.step, Blocks.delta, hpiece, slot_putThinking, thinkingSlot_eq, hslot]
      rw [ih hdeltas hnext]
      simp [Delta.thinkingPiece, Delta.signaturePiece, String.append_assoc]
    · have hnext : (blocks.step py (.delta index (.signature piece))).slot index =
          { thinking := some ⟨index, thought, signature ++ piece⟩ } := by
        simp [Blocks.step, Blocks.delta, slot_putThinking, thinkingSlot_eq, hslot]
      rw [ih hdeltas hnext]
      simp [Delta.thinkingPiece, Delta.signaturePiece, String.append_assoc]

theorem slot_foldl_inputJson {index : Int} (pieces : List String) {blocks : Blocks}
    {block : ToolBlock} (hindex : block.index = index)
    (hslot : blocks.slot index = { tool := some block }) :
    (((pieces.map Delta.inputJson).map (Event.delta index)).foldl (Blocks.step py) blocks).slot
        index = { tool := some { block with json := block.json ++ String.join pieces } } := by
  induction pieces generalizing blocks block with
  | nil => simpa using hslot
  | cons piece pieces ih =>
    have hnext : (blocks.step py (.delta index (.inputJson piece))).slot index =
        { tool := some { block with json := block.json ++ piece } } := by
      simp [Blocks.step, Blocks.delta, slot_putTool, toolBlock_eq, hslot, hindex]
    have hnextIndex : ({ block with json := block.json ++ piece } : ToolBlock).index = index :=
      hindex
    rw [List.map_cons, List.map_cons, List.foldl_cons, ih hnextIndex hnext]
    simp [String.append_assoc]

theorem arguments_of_sendsInput {input first : Members} {index : Int} {id name : Json}
    {json : String} (h : SendsInput py input first json) :
    ToolBlock.arguments py ⟨index, id, name, first, json⟩ = input := by
  obtain ⟨hfirst, hjson⟩ := h
  by_cases hempty : json = ""
  · rw [if_pos hempty] at hjson
    simp [ToolBlock.arguments, jsonRecord, hempty, hjson]
  · rw [if_neg hempty] at hjson
    have hrecord : jsonRecord py json = input := by
      rw [jsonRecord, if_neg hempty, hjson]
      rfl
    rw [ToolBlock.arguments, hrecord]
    by_cases hinput : input = .nil
    · subst hinput
      simpa using hfirst
    · simp [hinput]

/-- The events of a block are a stop behind others, which make the chunk of the block. -/
theorem chunk_of_sendsBlock {index : Int} {block : Block} (h : SendsBlock py index events block) :
    ∃ before, events = before ++ [.stop index] ∧ (∀ i, Event.stop i ∉ before) ∧
      ((before.foldl (Blocks.step py) {}).slot index).chunk py = block.chunk py := by
  have hstart : ∀ (payload : Payload) (deltas : List Delta) (i : Int),
      Event.stop i ∉ Event.start index payload :: deltas.map (.delta index) := by
    intro payload deltas i
    simp
  cases block with
  | text content =>
    obtain ⟨first, pieces, rfl, -⟩ := h
    refine ⟨_, rfl, hstart _ _, ?_⟩
    rw [List.foldl_cons, foldl_text]
    rfl
  | thinking thought signature =>
    obtain ⟨first, sign, deltas, rfl, hdeltas, hthought, hsignature⟩ := h
    refine ⟨_, rfl, hstart _ _, ?_⟩
    have hslot : (Blocks.step py {} (.start index (.thinking first sign))).slot index =
        { thinking := some ⟨index, first, sign⟩ } := by
      simp [Blocks.step, Blocks.start, slot_putThinking, thinkingSlot_eq]
    rw [List.foldl_cons, slot_foldl_thinking hdeltas hslot, hthought, hsignature]
    rfl
  | toolUse id name input =>
    obtain ⟨first, pieces, rfl, hinput⟩ := h
    refine ⟨_, rfl, hstart _ _, ?_⟩
    have hslot : (Blocks.step py {} (.start index (.toolUse id name first))).slot index =
        { tool := some ⟨index, .str id, .str name, first, ""⟩ } := by
      simp [Blocks.step, Blocks.start, slot_putTool]
    have hindex : (⟨index, .str id, .str name, first, ""⟩ : ToolBlock).index = index := rfl
    rw [List.foldl_cons, slot_foldl_inputJson pieces hindex hslot]
    simp [Slot.chunk, Block.chunk, arguments_of_sendsInput hinput]

/-! ## All blocks -/

variable {m : AssistantMessage}

/-- The blocks in the order in which they stop. -/
def stoppedBlocks (m : AssistantMessage) (events : List Event) : List Block :=
  ((events.filterMap Event.stop?).filterMap m.numbered.find).map (·.block)

theorem index?_of_stop? {event : Event} {index : Int} (h : event.stop? = some index) :
    event.index? = some index := by
  cases event with
  | stop i => exact h
  | _ => cases h

theorem filter_stops (events : List Event) (index : Int) :
    (events.filterMap Event.stop?).filter (· == index) =
      (events.filter (·.index? = some index)).filterMap Event.stop? := by
  induction events with
  | nil => rfl
  | cons event events ih =>
    cases hstop : event.stop? with
    | none =>
      rw [List.filterMap_cons_none hstop, ih]
      by_cases hindex : event.index? = some index
      · rw [List.filter_cons_of_pos (by simpa using hindex), List.filterMap_cons_none hstop]
      · rw [List.filter_cons_of_neg (by simpa using hindex)]
    | some i =>
      have hindex := index?_of_stop? hstop
      rw [List.filterMap_cons_some hstop]
      by_cases h : i = index
      · subst h
        rw [List.filter_cons_of_pos (by simp), List.filter_cons_of_pos (by simpa using hindex),
          List.filterMap_cons_some hstop, ih]
      · rw [List.filter_cons_of_neg (by simpa using h),
          List.filter_cons_of_neg (by simp [hindex, h]), ih]

/-- Every index stops once. -/
theorem filter_stops_of_streams (h : Streams py m events) (index : Int) :
    (events.filterMap Event.stop?).filter (· == index) =
      if (m.numbered.find index).isSome then [index] else [] := by
  rw [filter_stops]
  split
  · rename_i hsome
    obtain ⟨n, hn⟩ := Option.isSome_iff_exists.mp hsome
    obtain rfl := Table.key_of_find hn
    obtain ⟨before, hevents, hstop, -⟩ := chunk_of_sendsBlock (h.blocks n (Table.mem_of_find hn))
    have hnone : before.filterMap Event.stop? = [] := by
      rw [List.filterMap_eq_nil_iff]
      intro event hevent
      cases event with
      | stop i => exact absurd hevent (hstop i)
      | _ => rfl
    rw [hevents, List.filterMap_append, hnone]
    rfl
  · rename_i hnone
    have hempty : events.filter (·.index? = some index) = [] := by
      rw [List.filter_eq_nil_iff]
      intro event hevent heq
      exact hnone (h.indexes event hevent index (of_decide_eq_true heq))
    rw [hempty]
    rfl

theorem nodup_stops (h : Streams py m events) : (events.filterMap Event.stop?).Nodup := by
  rw [List.nodup_iff_count_le_one]
  intro index
  rw [List.count_eq_length_filter, filter_stops_of_streams h]
  split
  · simp
  · simp

theorem mem_stops (h : Streams py m events) (index : Int) :
    index ∈ events.filterMap Event.stop? ↔ (m.numbered.find index).isSome := by
  rw [← List.count_pos_iff, List.count_eq_length_filter, filter_stops_of_streams h]
  split
  · rename_i hsome
    simp [hsome]
  · rename_i hnone
    simp [hnone]

theorem stoppedBlocks_perm (h : Streams py m events) : (stoppedBlocks m events).Perm m.blocks :=
  (m.numbered.filterMap_find_perm (nodup_stops h) (mem_stops h)).map _

/-- Where a block stops, it stops as what was sent. -/
theorem chunk_at_stop (h : Streams py m events) {first rest : List Event} {index : Int}
    (heq : events = first ++ .stop index :: rest) :
    ((first.foldl (Blocks.step py) {}).slot index).chunk py =
      (m.numbered.find index).bind (·.block.chunk py) := by
  have hmem : Event.stop index ∈ events := by simp [heq]
  obtain ⟨n, hn⟩ := Option.isSome_iff_exists.mp (h.indexes _ hmem index rfl)
  obtain rfl := Table.key_of_find hn
  obtain ⟨before, hevents, hstop, hchunk⟩ :=
    chunk_of_sendsBlock (h.blocks n (Table.mem_of_find hn))
  rw [heq, List.filter_append, List.filter_cons_of_pos (by simp [Event.index?])] at hevents
  obtain ⟨hfirst, -, -⟩ := (List.append_cons_inj_of_notMem (hstop n.index)
    List.not_mem_nil).mp hevents.symm
  have hnot : Event.stop n.index ∉ first := by
    intro hin
    have hfilter : Event.stop n.index ∈ first.filter (·.index? = some n.index) :=
      List.mem_filter.mpr ⟨hin, by simp [Event.index?]⟩
    rw [← hfirst] at hfilter
    exact hstop n.index hfilter
  rw [slot_foldl hnot rfl, ← hfirst, hchunk, hn]
  rfl

/-- What the blocks add, one behind the other. -/
theorem flatMap_find {α : Type} (f : Option StreamChunk → List α) (hf : f none = [])
    (indexes : List Int) :
    indexes.flatMap (fun index => f ((m.numbered.find index).bind (·.block.chunk py))) =
      ((indexes.filterMap m.numbered.find).map (·.block)).flatMap fun block =>
        f (block.chunk py) := by
  induction indexes with
  | nil => rfl
  | cons index indexes ih =>
    rw [List.flatMap_cons, ih]
    cases hfind : m.numbered.find index with
    | none => simp [hfind, hf]
    | some n => simp [hfind]

/-! ## Calls and thoughts -/

def Block.text? : Block → Option String
  | .text content => some content
  | _ => none

def Block.thinking? : Block → Option (String × String)
  | .thinking thought signature => some (thought, signature)
  | _ => none

def Block.toolUse? : Block → Option ToolCall
  | .toolUse id name input => some ⟨id, name, input⟩
  | _ => none

def stripCall (call : ToolCall) : Option ToolCall :=
  if stripped call.name = "" then none else some { call with name := stripped call.name }

/-- What is gathered of the events. -/
theorem gatherEvents_of_streams (h : Streams py m events) :
    (gatherEvents py events {}).toolCalls =
        ((stoppedBlocks m events).filterMap Block.toolUse?).filterMap stripCall ∧
      (gatherEvents py events {}).thinkingBlocks =
        ((stoppedBlocks m events).filterMap Block.thinking?).map fun x =>
          thinkingRecord x.1 x.2 := by
  obtain ⟨htools, hthinking⟩ := stopped_gatherEvents events fun first index rest heq =>
    chunk_at_stop h heq
  rw [htools, hthinking, flatMap_find (fun chunk => (gather py chunk.toList).toolCalls) rfl,
    flatMap_find (fun chunk => (gather py chunk.toList).thinkingBlocks) rfl]
  change ((stoppedBlocks m events).flatMap fun block =>
      (gather py (block.chunk py).toList).toolCalls) = _ ∧
    ((stoppedBlocks m events).flatMap fun block =>
      (gather py (block.chunk py).toList).thinkingBlocks) = _
  generalize stoppedBlocks m events = blocks
  induction blocks with
  | nil => exact ⟨rfl, rfl⟩
  | cons block blocks ih =>
    obtain ⟨htools, hthinking⟩ := ih
    rw [List.flatMap_cons, List.flatMap_cons, htools, hthinking]
    cases block with
    | text content => exact ⟨rfl, rfl⟩
    | thinking thought signature => exact ⟨rfl, rfl⟩
    | toolUse id name input =>
      refine ⟨?_, rfl⟩
      have hcall : (gather py (Block.chunk py (.toolUse id name input)).toList).toolCalls =
          (stripCall ⟨id, name, input⟩).toList := by
        by_cases hname : stripped name = ""
        · simp [Block.chunk, toolChunk, gather, Gathered.add, toolCall, Python.str, stripCall,
            hname]
        · simp [Block.chunk, toolChunk, gather, Gathered.add, toolCall, Python.str, stripCall,
            asRecord, hname]
      rw [hcall]
      cases hstrip : stripCall ⟨id, name, input⟩ <;> simp [Block.toolUse?, hstrip]

/-- A thought is sent by a block of thoughts only. -/
theorem thinkingPiece_of_sendsBlock {index : Int} {block : Block}
    (h : SendsBlock py index events block) (hnone : block.thinking? = none) :
    ∀ event ∈ events, event.thinkingPiece = "" := by
  have hpieces : ∀ (payload : Payload) (pieces : List String) (f : String → Delta),
      (∀ piece, (Event.delta index (f piece)).thinkingPiece = "") →
      ∀ event ∈ Event.start index payload :: (pieces.map f).map (.delta index) ++ [.stop index],
        event.thinkingPiece = "" := by
    intro payload pieces f hf event hevent
    simp only [List.cons_append, List.mem_cons, List.mem_append, List.map_map, List.mem_map,
      List.not_mem_nil, or_false] at hevent
    rcases hevent with rfl | ⟨piece, -, rfl⟩ | rfl
    · rfl
    · exact hf piece
    · rfl
  cases block with
  | text content =>
    obtain ⟨first, pieces, rfl, -⟩ := h
    exact hpieces _ pieces _ fun _ => rfl
  | thinking thought signature => cases hnone
  | toolUse id name input =>
    obtain ⟨first, pieces, rfl, -⟩ := h
    exact hpieces _ pieces _ fun _ => rfl

/-- Without a block of thoughts there is no reasoning. -/
theorem reasoning_of_no_thinking (h : Streams py m events)
    (hnone : (stoppedBlocks m events).filterMap Block.thinking? = []) :
    String.join (events.map Event.thinkingPiece) = "" := by
  have hblocks : m.blocks.filterMap Block.thinking? = [] :=
    List.nil_perm.mp (hnone ▸ (stoppedBlocks_perm h).filterMap _)
  rw [List.filterMap_eq_nil_iff] at hblocks
  have hpieces : ∀ event ∈ events, event.thinkingPiece = "" := by
    intro event hevent
    cases hindex : event.index? with
    | none => cases event <;> simp_all [Event.index?, Event.thinkingPiece]
    | some index =>
      obtain ⟨n, hn⟩ := Option.isSome_iff_exists.mp (h.indexes event hevent index hindex)
      obtain rfl := Table.key_of_find hn
      have hentry := Table.mem_of_find hn
      exact thinkingPiece_of_sendsBlock (h.blocks n hentry)
        (hblocks n.block (List.mem_map_of_mem hentry)) event
        (List.mem_filter.mpr ⟨hevent, by simpa using hindex⟩)
  clear hblocks hnone h
  induction events with
  | nil => rfl
  | cons event events ih =>
    obtain ⟨hevent, hevents⟩ := List.forall_mem_cons.mp hpieces
    rw [List.map_cons, String.join_cons, hevent, ih hevents]
    rfl

/-! ## The plain response -/

theorem toList_objects (blocks : List Members) : (objects blocks).toList = blocks.map Json.obj := by
  induction blocks with
  | nil => rfl
  | cons block blocks ih => rw [objects, Items.toList, ih, List.map_cons]

theorem mapM_dict_objects (blocks : List Members) :
    (objects blocks).toList.mapM dict? = some blocks := by
  rw [toList_objects]
  induction blocks with
  | nil => rfl
  | cons block blocks ih => simp [ih, dict?]

theorem filterMap_dict_objects (blocks : List Members) :
    (objects blocks).toList.filterMap dict? = blocks := by
  rw [toList_objects, List.filterMap_map]
  exact List.filterMap_some

variable {contentBlocks : List Members} {blocks : List Block}

theorem texts_of_reads
    (h : List.Forall₂ (fun block members => Block.Reads members block) blocks contentBlocks) :
    ((contentBlocks.filter (isType · "text")).mapM fun block =>
      str? (member block "text" (.str ""))) = some (blocks.filterMap Block.text?) := by
  induction h with
  | nil => rfl
  | @cons block members blocks contentBlocks hread _ ih =>
    cases block with
    | text content =>
      obtain ⟨htype, htext⟩ := hread
      have hstr : str? (member members "text" (.str "")) = some content := by
        rcases htext with hget | ⟨rfl, hnone⟩
        · rw [member, hget]
          rfl
        · rw [member, hnone]
          rfl
      simp [isType_of_get? htype, ih, hstr, Block.text?]
    | thinking thought signature =>
      obtain ⟨htype, -⟩ := hread
      simp [isType_of_get? htype, ih]
      rfl
    | toolUse id name input =>
      obtain ⟨htype, -⟩ := hread
      simp [isType_of_get? htype, ih]
      rfl

theorem toolCalls_of_reads
    (h : List.Forall₂ (fun block members => Block.Reads members block) blocks contentBlocks) :
    (contentBlocks.filter (isType · "tool_use")).mapM plainToolCall =
      some (blocks.filterMap Block.toolUse?) := by
  induction h with
  | nil => rfl
  | @cons block members blocks contentBlocks hread _ ih =>
    cases block with
    | text content =>
      obtain ⟨htype, -⟩ := hread
      simp [isType_of_get? htype, ih]
      rfl
    | thinking thought signature =>
      obtain ⟨htype, -⟩ := hread
      simp [isType_of_get? htype, ih]
      rfl
    | toolUse id name input =>
      obtain ⟨htype, hid, hname, hinput⟩ := hread
      have hdict : dict? (member members "input" (.obj .nil)) = some input := by
        rcases hinput with hget | ⟨rfl, hnone⟩
        · rw [member, hget]
          rfl
        · rw [member, hnone]
          rfl
      have hcall : plainToolCall members = some ⟨id, name, input⟩ := by
        rw [plainToolCall, hdict]
        simp [member, hid, hname, str?]
      simp [isType_of_get? htype, ih, hcall, Block.toolUse?]

/-- A dictionary that is this thinking block. -/
def ReadsThinking (x : String × String) (members : Members) : Prop :=
  Block.Reads members (.thinking x.1 x.2)

theorem thinking_of_reads
    (h : List.Forall₂ (fun block members => Block.Reads members block) blocks contentBlocks) :
    List.Forall₂ ReadsThinking (blocks.filterMap Block.thinking?)
      (contentBlocks.filter (isType · "thinking")) := by
  induction h with
  | nil => exact .nil
  | @cons block members blocks contentBlocks hread _ ih =>
    cases block with
    | text content =>
      obtain ⟨htype, -⟩ := hread
      have hsame : (Block.text content :: blocks).filterMap Block.thinking? =
          blocks.filterMap Block.thinking? := rfl
      simpa [isType_of_get? htype, hsame] using ih
    | thinking thought signature =>
      have htype := hread.1
      have hcons : List.Forall₂ ReadsThinking
          ((thought, signature) :: blocks.filterMap Block.thinking?)
          (members :: contentBlocks.filter (isType · "thinking")) := .cons hread ih
      simpa [isType_of_get? htype, Block.thinking?] using hcons
    | toolUse id name input =>
      obtain ⟨htype, -⟩ := hread
      have hsame : (Block.toolUse id name input :: blocks).filterMap Block.thinking? =
          blocks.filterMap Block.thinking? := rfl
      simpa [isType_of_get? htype, hsame] using ih

theorem int?_of_readsCount {usage : Members} {key : String} {n : Int} (h : ReadsCount usage key n) :
    int? (member usage key (.int 0)) = some n := by
  rcases h with hget | ⟨rfl, hnone⟩
  · rw [member, hget]
    rfl
  · rw [member, hnone]
    rfl

theorem parseResponse_of_reads {data : Members} (h : m.Reads data) :
    ∃ plain, parseResponse py data = some plain ∧
      plain.content = String.join (m.blocks.filterMap Block.text?) ∧
      plain.toolCalls = m.blocks.filterMap Block.toolUse? ∧ plain.usage = m.usage ∧
      List.Forall₂ ReadsThinking (m.blocks.filterMap Block.thinking?) (replayed plain) := by
  obtain ⟨contentBlocks, hcontent, hreads⟩ := h.content
  obtain ⟨usage, husage, hcounts⟩ := h.usage
  have hitems : list? (member data "content" (.arr .nil)) =
      some (objects contentBlocks).toList := by
    rw [member, hcontent]
    rfl
  have hdict : dict? (.obj usage) = some usage := rfl
  refine ⟨
    { content := String.join (m.blocks.filterMap Block.text?)
      toolCalls := m.blocks.filterMap Block.toolUse?
      usage := m.usage
      providerMetadata := providerMetadata py contentBlocks },
    ?_, rfl, rfl, rfl, ?_⟩
  · simp only [parseResponse, if_neg h.success, hitems, mapM_dict_objects, texts_of_reads hreads,
      toolCalls_of_reads hreads, husage, hdict, int?_of_readsCount hcounts.input,
      int?_of_readsCount hcounts.output, int?_of_readsCount hcounts.cacheRead,
      int?_of_readsCount hcounts.cacheCreation, Option.bind_eq_bind, Option.bind_some]
    rfl
  · have hthinking := thinking_of_reads hreads
    unfold replayed LLMResponse.thinkingBlocks providerMetadata
    by_cases hnil : contentBlocks.filter (isType · "thinking") = []
    · rw [hnil] at hthinking
      simpa [hnil, Members.get?, Items.toList] using hthinking
    · simpa [hnil, Members.get?, filterMap_dict_objects] using hthinking

/-! ## Agreement -/

/-- The dictionaries have the same members. -/
def SameMembers (x y : Members) : Prop := ∀ key, x.get? key = y.get? key

/-- The responses have the same text, calls and counts, and the same
thinking blocks are sent again. -/
structure Agree (plain streamed : LLMResponse) : Prop where
  content : streamed.content = plain.content
  toolCalls : streamed.toolCalls = plain.toolCalls
  thinkingBlocks : List.Forall₂ SameMembers (replayed streamed) (replayed plain)
  usage : streamed.usage = plain.usage

/-- Nothing arrives out of order that it would make a difference for: the
pieces of text that the deltas send read the texts of the blocks, and the
tool calls and the thoughts that stop one after the other are those of the
message. The names of tools have no blanks at their ends and are not empty. -/
structure BlocksInOrder (m : AssistantMessage) (events : List Event) : Prop where
  text : String.join (events.map Event.textPiece) = String.join (m.blocks.filterMap Block.text?)
  toolUse : (stoppedBlocks m events).filterMap Block.toolUse? = m.blocks.filterMap Block.toolUse?
  thinking : (stoppedBlocks m events).filterMap Block.thinking? =
    m.blocks.filterMap Block.thinking?
  names : ∀ call ∈ m.blocks.filterMap Block.toolUse?, call.name ≠ "" ∧
    stripped call.name = call.name

theorem foldr_mergeUsage (counts : List LLMUsage) :
    counts.foldr mergeUsage {} =
      { promptTokens := lastReport (counts.map (·.promptTokens))
        completionTokens := lastReport (counts.map (·.completionTokens))
        cachedPromptTokens := lastReport (counts.map (·.cachedPromptTokens))
        cacheCreationPromptTokens := lastReport (counts.map (·.cacheCreationPromptTokens)) } := by
  induction counts with
  | nil => rfl
  | cons x counts ih =>
    rw [List.foldr_cons, ih]
    rfl

/-- The thinking blocks in the metadata of a streamed response. -/
theorem replayed_metadata {r : LLMResponse} {reasoning : String} {thinkingBlocks : List Members}
    (hr : r.providerMetadata = metadata py reasoning thinkingBlocks)
    (h : thinkingBlocks = [] → reasoning = "") : replayed r = thinkingBlocks := by
  unfold replayed LLMResponse.thinkingBlocks
  rw [hr]
  by_cases hnil : thinkingBlocks = []
  · simp [metadata, hnil, h hnil, Items.toList]
  · have hget : (metadata py reasoning thinkingBlocks).get? "thinking_blocks" =
        some (.arr (objects thinkingBlocks)) := by
      simp only [metadata, hnil, ne_eq, not_false_eq_true, if_true]
      split_ifs <;> simp [Members.get?]
    rw [hget, Option.getD_some]
    exact filterMap_dict_objects thinkingBlocks

theorem sameMembers_iff {x y : String × String} {members : Members} (h : ReadsThinking y members) :
    SameMembers (thinkingRecord x.1 x.2) members ↔ x = y := by
  obtain ⟨htype, hthinking, hsignature, hother⟩ := h
  constructor
  · intro hsame
    have hthought := (hsame "thinking").trans hthinking
    have hsign := (hsame "signature").trans hsignature
    simp only [thinkingRecord, Members.get?] at hthought hsign
    refine Prod.ext ?_ ?_
    · simpa using hthought
    · simpa using hsign
  · rintro rfl key
    by_cases hkey : key ∈ thinkingKeys
    · simp only [thinkingKeys, List.mem_cons, List.not_mem_nil, or_false] at hkey
      rcases hkey with rfl | rfl | rfl
      · rw [htype]
        rfl
      · rw [hthinking]
        simp [thinkingRecord, Members.get?]
      · rw [hsignature]
        simp [thinkingRecord, Members.get?]
    · rw [hother key hkey]
      simp only [thinkingKeys, List.mem_cons, List.not_mem_nil, or_false, not_or] at hkey
      simp [thinkingRecord, Members.get?, hkey, eq_comm]

theorem forall₂_sameMembers_iff {sent : List (String × String)} {dicts : List Members}
    (h : List.Forall₂ ReadsThinking sent dicts) (received : List (String × String)) :
    List.Forall₂ SameMembers (received.map fun x => thinkingRecord x.1 x.2) dicts ↔
      received = sent := by
  induction h generalizing received with
  | nil => simp
  | cons hread _ ih =>
    cases received with
    | nil => simp
    | cons x received =>
      rw [List.map_cons, List.forall₂_cons, sameMembers_iff hread, ih, List.cons.injEq]

theorem stripped_stripped (s : String) : stripped (stripped s) = stripped s := by
  simp [stripped, Text.strip_strip]

/-- Calls come out of the stripping of some others exactly when the names are clean. -/
theorem filterMap_stripCall_iff {received sent : List ToolCall} (h : received.Perm sent) :
    received.filterMap stripCall = sent ↔
      received = sent ∧ ∀ call ∈ sent, call.name ≠ "" ∧ stripped call.name = call.name := by
  have hclean : (∀ call ∈ received, call.name ≠ "" ∧ stripped call.name = call.name) →
      received.filterMap stripCall = received := by
    intro hnames
    rw [List.filterMap_congr fun call hcall => ?_, List.filterMap_some]
    obtain ⟨hempty, hstrip⟩ := hnames call hcall
    rw [stripCall, hstrip, if_neg hempty]
  constructor
  · intro heq
    have hnames : ∀ call ∈ sent, call.name ≠ "" ∧ stripped call.name = call.name := by
      intro call hcall
      rw [← heq, List.mem_filterMap] at hcall
      obtain ⟨before, -, hstrip⟩ := hcall
      unfold stripCall at hstrip
      split at hstrip
      · cases hstrip
      · rename_i hempty
        cases hstrip
        exact ⟨hempty, stripped_stripped _⟩
    have hreceived := hclean fun call hcall => hnames call (h.mem_iff.mp hcall)
    exact ⟨hreceived.symm.trans heq, hnames⟩
  · rintro ⟨rfl, hnames⟩
    exact hclean hnames

/-- **The streamed response agrees with the plain one exactly when the blocks are in order.** -/
theorem streamed_blocks_agree_iff {data : Members} (hplain : m.Reads data)
    (hlines : Carries py "" lines events) (hsent : Streams py m events) :
    (∃ plain response, parseResponse py data = some plain ∧ streamed py lines = some response ∧
        Agree plain response) ↔ BlocksInOrder m events := by
  obtain ⟨plain, hparse, hcontent, htoolCalls, husage, hthinking⟩ :=
    @parseResponse_of_reads py m data hplain
  obtain ⟨out, hout, hne, hgather⟩ := handleLines_of_carries hlines {}
  obtain ⟨hcalls, hblocks⟩ := gatherEvents_of_streams hsent
  have hcounts : (gatherEvents py events {}).usage = m.usage := by
    have hinput := hsent.input
    have houtput := hsent.output
    have hcacheRead := hsent.cacheRead
    have hcacheCreation := hsent.cacheCreation
    rw [usage_gatherEvents, foldr_mergeUsage]
    simp only [List.map_map, Function.comp_def, hinput, houtput, hcacheRead, hcacheCreation]
  obtain ⟨response, hresponse, hr⟩ : ∃ response, streamed py lines = some response ∧ response =
      { content := String.join (events.map Event.textPiece)
        toolCalls := ((stoppedBlocks m events).filterMap Block.toolUse?).filterMap stripCall
        usage := m.usage
        providerMetadata := metadata py (String.join (events.map Event.thinkingPiece))
          (((stoppedBlocks m events).filterMap Block.thinking?).map fun x =>
            thinkingRecord x.1 x.2) } := by
    refine ⟨_, ?_, rfl⟩
    rw [streamed, stream, hout, Option.bind_some, completeWithStream, if_neg hne, hgather]
    simp only [content_gatherEvents, reasoning_gatherEvents, hcounts, hcalls, hblocks]
  have hreplayed : replayed response =
      ((stoppedBlocks m events).filterMap Block.thinking?).map fun x =>
        thinkingRecord x.1 x.2 := by
    refine replayed_metadata (congrArg LLMResponse.providerMetadata hr) fun hnil => ?_
    exact reasoning_of_no_thinking hsent (List.map_eq_nil_iff.mp hnil)
  have hperm := (stoppedBlocks_perm hsent).filterMap Block.toolUse?
  have hagree : (∃ plain response, parseResponse py data = some plain ∧
      streamed py lines = some response ∧ Agree plain response) ↔ Agree plain response := by
    constructor
    · rintro ⟨plain', response', hplain', hresponse', hagree⟩
      rw [hparse] at hplain'
      rw [hresponse] at hresponse'
      cases hplain'
      cases hresponse'
      exact hagree
    · exact fun hagree => ⟨plain, response, hparse, hresponse, hagree⟩
  rw [hagree]
  constructor
  · rintro ⟨htext, htools, hthoughts, -⟩
    rw [hr, htoolCalls] at htools
    obtain ⟨htoolUse, hnames⟩ := (filterMap_stripCall_iff hperm).mp htools
    rw [hreplayed] at hthoughts
    refine ⟨?_, htoolUse, (forall₂_sameMembers_iff hthinking _).mp hthoughts, hnames⟩
    rw [hr, hcontent] at htext
    exact htext
  · rintro ⟨htext, htoolUse, hthoughts, hnames⟩
    refine ⟨?_, ?_, ?_, ?_⟩
    · rw [hr, hcontent]
      exact htext
    · rw [hr, htoolCalls]
      exact (filterMap_stripCall_iff hperm).mpr ⟨htoolUse, hnames⟩
    · rw [hreplayed]
      exact (forall₂_sameMembers_iff hthinking _).mpr hthoughts
    · rw [hr, husage]

/-! ## Blocks one behind the other -/

/-- The events of the blocks stand one block behind the other, in the order of the blocks. -/
def OneByOne (m : AssistantMessage) (events : List Event) : Prop :=
  events.filter (·.index?.isSome) =
    m.numbered.entries.flatMap fun n => events.filter (·.index? = some n.index)

theorem join_textPiece_filter (events : List Event) :
    String.join ((events.filter (·.index?.isSome)).map Event.textPiece) =
      String.join (events.map Event.textPiece) := by
  induction events with
  | nil => rfl
  | cons event events ih =>
    by_cases hindex : event.index?.isSome = true
    · rw [List.filter_cons, if_pos hindex, List.map_cons, List.map_cons, String.join_cons,
        String.join_cons, ih]
    · have hpiece : event.textPiece = "" := by
        cases event with
        | start i payload => rfl
        | delta i delta => exact absurd rfl hindex
        | stop i => rfl
        | messageStart counts => rfl
        | messageDelta counts => rfl
        | other => rfl
      rw [List.filter_cons, if_neg hindex, ih, List.map_cons, String.join_cons, hpiece,
        String.empty_append]

theorem filterMap_stop_filter (events : List Event) :
    (events.filter (·.index?.isSome)).filterMap Event.stop? = events.filterMap Event.stop? := by
  rw [List.filterMap_filter]
  refine List.filterMap_congr fun event _ => ?_
  cases event with
  | _ => rfl

theorem textPiece_of_sendsBlock {index : Int} {block : Block}
    (h : SendsBlock py index events block)
    (hstart : ∀ index content, Event.start index (.text content) ∈ events → content = "") :
    String.join (events.map Event.textPiece) = block.text?.getD "" := by
  have hjoin : ∀ (payload : Payload) (deltas : List Delta),
      String.join ((Event.start index payload :: deltas.map (Event.delta index) ++
        [Event.stop index]).map Event.textPiece) =
        String.join (deltas.map fun delta => (Event.delta index delta).textPiece) := by
    intro payload deltas
    have hstart : (Event.start index payload).textPiece = "" := rfl
    have hstop : (Event.stop index).textPiece = "" := rfl
    simp [hstart, hstop, Function.comp_def]
  have hnone : ∀ deltas : List Delta, (∀ delta ∈ deltas, (Event.delta index delta).textPiece = "") →
      String.join (deltas.map fun delta => (Event.delta index delta).textPiece) = "" := by
    intro deltas hdeltas
    induction deltas with
    | nil => rfl
    | cons delta deltas ih =>
      obtain ⟨hdelta, hdeltas⟩ := List.forall_mem_cons.mp hdeltas
      rw [List.map_cons, String.join_cons, hdelta, ih hdeltas]
      rfl
  cases block with
  | text content =>
    obtain ⟨first, pieces, rfl, rfl⟩ := h
    have hfirst : first = "" := hstart index first (by simp)
    rw [hjoin, hfirst]
    simp [Event.textPiece, Block.text?, Function.comp_def]
  | thinking thought signature =>
    obtain ⟨first, sign, deltas, rfl, hdeltas, -, -⟩ := h
    rw [hjoin]
    refine hnone deltas fun delta hdelta => ?_
    obtain ⟨piece, rfl | rfl⟩ := hdeltas delta hdelta
    · rfl
    · rfl
  | toolUse id name input =>
    obtain ⟨first, pieces, rfl, -⟩ := h
    rw [hjoin]
    refine hnone _ fun delta hdelta => ?_
    obtain ⟨piece, -, rfl⟩ := List.mem_map.mp hdelta
    rfl

/-- **Blocks that are sent one behind the other are in order**, when texts
start empty and the names of tools are clean. -/
theorem blocksInOrder_of_oneByOne (h : Streams py m events) (hone : OneByOne m events)
    (hstart : ∀ index content, Event.start index (.text content) ∈ events → content = "")
    (hnames : ∀ call ∈ m.blocks.filterMap Block.toolUse?, call.name ≠ "" ∧
      stripped call.name = call.name) : BlocksInOrder m events := by
  have hstops : events.filterMap Event.stop? = m.numbered.entries.map (·.index) := by
    have hblock : ∀ n ∈ m.numbered.entries,
        (events.filter (·.index? = some n.index)).filterMap Event.stop? = [n.index] := by
      intro n hn
      rw [← filter_stops, filter_stops_of_streams h, Table.find_of_mem hn]
      rfl
    rw [← filterMap_stop_filter, hone, List.filterMap_flatMap]
    generalize m.numbered.entries = entries at hblock ⊢
    induction entries with
    | nil => rfl
    | cons n entries ih =>
      obtain ⟨hn, hentries⟩ := List.forall_mem_cons.mp hblock
      rw [List.flatMap_cons, hn, ih hentries]
      rfl
  have hstopped : stoppedBlocks m events = m.blocks := by
    rw [stoppedBlocks, hstops, AssistantMessage.blocks, List.filterMap_map]
    congr 1
    calc m.numbered.entries.filterMap (m.numbered.find ∘ (·.index))
        = m.numbered.entries.filterMap some :=
          List.filterMap_congr fun n hn => Table.find_of_mem hn
      _ = m.numbered.entries := List.filterMap_some
  refine ⟨?_, by rw [hstopped], by rw [hstopped], hnames⟩
  have htexts : ∀ n ∈ m.numbered.entries,
      String.join ((events.filter (·.index? = some n.index)).map Event.textPiece) =
        n.block.text?.getD "" := by
    intro n hn
    exact textPiece_of_sendsBlock (h.blocks n hn) fun index content hevent =>
      hstart index content (List.mem_filter.mp hevent).1
  rw [← join_textPiece_filter, hone, AssistantMessage.blocks]
  generalize m.numbered.entries = entries at htexts ⊢
  induction entries with
  | nil => rfl
  | cons n entries ih =>
    obtain ⟨hn, hentries⟩ := List.forall_mem_cons.mp htexts
    rw [List.flatMap_cons, List.map_append, String.join_append, hn, ih hentries, List.map_cons]
    cases hblock : n.block.text? with
    | none => simp [hblock]
    | some content => simp [hblock]

/-! ## Two calls, in turn and crossed -/

def eventLine (type : String) : List Char := "event: ".toList ++ type.toList

/-- The two lines of an event. -/
theorem Carries.pair {type next : String} {data : Members} {event : Event}
    (hnext : field? "event:" (eventLine next) = some next)
    (hline : field? "event:" (dataLine data) = none)
    (hdata : field? "data:" (dataLine data) = some (String.ofList (Json.obj data).text))
    (hraw : String.ofList (Json.obj data).text ≠ "[DONE]")
    (hvalid : (Json.obj data).valid = true) (hreads : event.Reads next data)
    (hrest : Carries jsonPython next lines events) :
    Carries jsonPython type (eventLine next :: dataLine data :: lines) (event :: events) := by
  refine .event hnext (.data hline hdata hraw ?_ hreads hrest)
  rw [String.toList_ofList]
  exact loads_jsonPython hvalid

def members (entries : List (String × Json)) : Members := asRecord (dictionary entries)

def startData (index : Int) (id name : String) : Members :=
  members [("index", .int index), ("content_block", dictionary [("type", .str "tool_use"),
    ("id", .str id), ("name", .str name), ("input", .obj .nil)])]

def stopData (index : Int) : Members := members [("index", .int index)]

def endData : Members := members [("usage", dictionary [("output_tokens", .int 5)])]

def startLines (index : Int) (id name : String) : List (List Char) :=
  [eventLine "content_block_start", dataLine (startData index id name)]

def stopLines (index : Int) : List (List Char) :=
  [eventLine "content_block_stop", dataLine (stopData index)]

/-- The lines of `message_delta` and `message_stop`. -/
def endLines : List (List Char) :=
  [eventLine "message_delta", dataLine endData, eventLine "message_stop", dataLine .nil]

def twoCalls : AssistantMessage where
  numbered := ⟨[⟨0, .toolUse "c1" "Read" .nil⟩, ⟨1, .toolUse "c2" "Grep" .nil⟩], by decide⟩
  usage := { completionTokens := 5 }

/-- The plain response. -/
def twoCallsResponse : Members :=
  members [("content", .arr (objects [
      members [("type", .str "tool_use"), ("id", .str "c1"), ("name", .str "Read")],
      members [("type", .str "tool_use"), ("id", .str "c2"), ("name", .str "Grep")]])),
    ("usage", dictionary [("output_tokens", .int 5)])]

def startRead : Event := .start 0 (.toolUse "c1" "Read" .nil)

def startGrep : Event := .start 1 (.toolUse "c2" "Grep" .nil)

def ended : Event := .messageDelta { output := some 5 }

theorem reads_twoCallsResponse : twoCalls.Reads twoCallsResponse where
  success := by decide
  content := ⟨_, rfl, .cons ⟨rfl, rfl, rfl, .inr ⟨rfl, rfl⟩⟩
    (.cons ⟨rfl, rfl, rfl, .inr ⟨rfl, rfl⟩⟩ .nil)⟩
  usage := ⟨_, rfl, .inr ⟨rfl, rfl⟩, .inl rfl, .inr ⟨rfl, rfl⟩, .inr ⟨rfl, rfl⟩⟩

/-- The two calls are sent, each of them at once or not. -/
theorem streams_twoCalls (hfirst : events.filter (·.index? = some 0) = [startRead, .stop 0])
    (hsecond : events.filter (·.index? = some 1) = [startGrep, .stop 1])
    (hmem : ∀ event ∈ events, event ∈ [startRead, .stop 0, startGrep, .stop 1, ended])
    (husage : (events.map Event.usage).foldr mergeUsage {} = twoCalls.usage) :
    Streams jsonPython twoCalls events := by
  rw [foldr_mergeUsage, LLMUsage.mk.injEq] at husage
  simp only [List.map_map] at husage
  obtain ⟨hinput, houtput, hcacheRead, hcacheCreation⟩ := husage
  refine ⟨?_, ?_, hinput, houtput, hcacheRead, hcacheCreation⟩
  · intro n hn
    have hinputs : SendsInput jsonPython .nil .nil (String.join []) := ⟨.inl rfl, rfl⟩
    rcases List.mem_cons.mp hn with rfl | hn
    · exact ⟨.nil, [], hfirst, hinputs⟩
    · rcases List.mem_cons.mp hn with rfl | hn
      · exact ⟨.nil, [], hsecond, hinputs⟩
      · cases hn
  · intro event hevent index hindex
    have hcases := hmem event hevent
    simp only [List.mem_cons, List.not_mem_nil, or_false] at hcases
    rcases hcases with rfl | rfl | rfl | rfl | rfl <;> cases hindex <;> rfl

theorem carries_endLines (type : String) : Carries jsonPython type endLines [ended] := by
  have hstop : Carries jsonPython "message_stop" [dataLine .nil] [] :=
    @Carries.done jsonPython "message_stop" "\x7b\x7d" (dataLine .nil) [] (by decide +kernel)
      (by decide +kernel) (.inr rfl)
  exact .pair (by decide +kernel) (by decide +kernel) (by decide +kernel) (by decide +kernel)
    (by decide +kernel) ⟨rfl, _, rfl, .inl rfl, .inl rfl, .inl rfl, .inl rfl⟩
    (.event (by decide +kernel : _ = some "message_stop") hstop)

theorem two_calls_in_turn :
    ∃ plain response, parseResponse jsonPython twoCallsResponse = some plain ∧
      streamed jsonPython (startLines 0 "c1" "Read" ++ stopLines 0 ++ startLines 1 "c2" "Grep" ++
        stopLines 1 ++ endLines) = some response ∧ Agree plain response := by
  have hcarries : Carries jsonPython "" (startLines 0 "c1" "Read" ++ stopLines 0 ++
      startLines 1 "c2" "Grep" ++ stopLines 1 ++ endLines)
      [startRead, .stop 0, startGrep, .stop 1, ended] := by
    refine .pair (by decide +kernel) (by decide +kernel) (by decide +kernel) (by decide +kernel)
      (by decide +kernel) ⟨rfl, rfl, _, rfl, rfl, rfl, rfl, rfl⟩ ?_
    refine .pair (by decide +kernel) (by decide +kernel) (by decide +kernel) (by decide +kernel)
      (by decide +kernel) ⟨rfl, rfl⟩ ?_
    refine .pair (by decide +kernel) (by decide +kernel) (by decide +kernel) (by decide +kernel)
      (by decide +kernel) ⟨rfl, rfl, _, rfl, rfl, rfl, rfl, rfl⟩ ?_
    exact .pair (by decide +kernel) (by decide +kernel) (by decide +kernel) (by decide +kernel)
      (by decide +kernel) ⟨rfl, rfl⟩ (carries_endLines _)
  refine (streamed_blocks_agree_iff reads_twoCallsResponse hcarries (streams_twoCalls rfl rfl
    (fun _ hevent => hevent) rfl)).mpr ⟨rfl, rfl, rfl, ?_⟩
  decide +kernel

/-- The calls come in the order in which they stop. -/
theorem not_streamed_blocks_agree : ¬ ∀ (py : Python) (m : AssistantMessage) (data : Members)
    (lines : List (List Char)) (events : List Event), m.Reads data → Carries py "" lines events →
    Streams py m events →
      ∃ plain response, parseResponse py data = some plain ∧ streamed py lines = some response ∧
        Agree plain response := by
  intro hall
  have hcarries : Carries jsonPython "" (startLines 0 "c1" "Read" ++ startLines 1 "c2" "Grep" ++
      stopLines 1 ++ stopLines 0 ++ endLines)
      [startRead, startGrep, .stop 1, .stop 0, ended] := by
    refine .pair (by decide +kernel) (by decide +kernel) (by decide +kernel) (by decide +kernel)
      (by decide +kernel) ⟨rfl, rfl, _, rfl, rfl, rfl, rfl, rfl⟩ ?_
    refine .pair (by decide +kernel) (by decide +kernel) (by decide +kernel) (by decide +kernel)
      (by decide +kernel) ⟨rfl, rfl, _, rfl, rfl, rfl, rfl, rfl⟩ ?_
    refine .pair (by decide +kernel) (by decide +kernel) (by decide +kernel) (by decide +kernel)
      (by decide +kernel) ⟨rfl, rfl⟩ ?_
    exact .pair (by decide +kernel) (by decide +kernel) (by decide +kernel) (by decide +kernel)
      (by decide +kernel) ⟨rfl, rfl⟩ (carries_endLines _)
  have hstreams : Streams jsonPython twoCalls [startRead, startGrep, .stop 1, .stop 0, ended] :=
    streams_twoCalls rfl rfl (by decide) rfl
  obtain ⟨plain, response, hplain, hresponse, hagree⟩ :=
    hall jsonPython twoCalls twoCallsResponse _ _ reads_twoCallsResponse hcarries hstreams
  have hcalls : (parseResponse jsonPython twoCallsResponse).map (·.toolCalls) =
      some [⟨"c1", "Read", .nil⟩, ⟨"c2", "Grep", .nil⟩] := by decide +kernel
  obtain ⟨out, hout, hne, hgather⟩ := handleLines_of_carries hcarries {}
  rw [streamed, stream, hout, Option.bind_some, completeWithStream, if_neg hne, hgather,
    Option.some.injEq] at hresponse
  have hcrossed : response.toolCalls = [⟨"c2", "Grep", .nil⟩, ⟨"c1", "Read", .nil⟩] := by
    rw [← hresponse]
    decide +kernel
  rw [hplain] at hcalls
  have heq := hcrossed.symm.trans (hagree.toolCalls.trans (Option.some.inj hcalls))
  exact absurd heq (by decide)

end NeuralHub.Adapters.Anthropic
