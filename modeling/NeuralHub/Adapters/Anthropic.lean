/-
NeuralHub.Adapters.Anthropic — responses of the Anthropic messages
interface, plain and streamed: `parse_response` and `_assistant_message` of
`anthropic_support.py`, `anthropic_stream.py`, and the reading of lines in
`AnthropicAdapter.stream`.

A streamed response consists of events. What is still open of a content
block stands in two tables, one for tool calls and one for thoughts, under
the index of the block, and becomes a chunk when the block stops.

As in `NeuralHub.Adapters.OpenAI`, `none` stands for an exception, counters
and retries are left out, and an index is an integer.
-/
import NeuralHub.Adapters.Streaming
import NeuralHub.Lib.Table

namespace NeuralHub.Adapters.Anthropic

open NeuralHub.Lib
open NeuralHub.Plan (truthy)

/-! ## `parse_response` -/

def isType (block : Members) (type : String) : Bool := block.get? "type" == some (.str type)

def plainToolCall (block : Members) : Option ToolCall := do
  let id ← str? (member block "id" (.str ""))
  let name ← str? (member block "name" (.str ""))
  let arguments ← dict? (member block "input" (.obj .nil))
  return { id, name, arguments }

/-- `_provider_metadata`. -/
def providerMetadata (py : Python) (contentBlocks : List Members) : Members :=
  let thinkingBlocks := contentBlocks.filter (isType · "thinking")
  if thinkingBlocks = [] then .nil
  else
    let thinking := thinkingBlocks.map fun block => py.str (member block "thinking" (.str ""))
    .cons "thinking_blocks" (.arr (objects thinkingBlocks))
      (.cons "thinking" (.str (String.join thinking)) .nil)

def parseResponse (py : Python) (data : Members) : Option LLMResponse :=
  if data.get? "success" = some (.bool false) then none
  else do
    let items ← list? (member data "content" (.arr .nil))
    let contentBlocks ← items.mapM dict?
    let texts ← (contentBlocks.filter (isType · "text")).mapM fun block =>
      str? (member block "text" (.str ""))
    let toolCalls ← (contentBlocks.filter (isType · "tool_use")).mapM plainToolCall
    let usage ← dict? (member data "usage" (.obj .nil))
    let promptTokens ← int? (member usage "input_tokens" (.int 0))
    let completionTokens ← int? (member usage "output_tokens" (.int 0))
    let cachedPromptTokens ← int? (member usage "cache_read_input_tokens" (.int 0))
    let cacheCreationPromptTokens ← int? (member usage "cache_creation_input_tokens" (.int 0))
    return {
      content := String.join texts
      toolCalls
      usage := { promptTokens, completionTokens, cachedPromptTokens, cacheCreationPromptTokens }
      providerMetadata := providerMetadata py contentBlocks }

/-- The thinking blocks that `_assistant_message` sends again. -/
def replayed (r : LLMResponse) : List Members :=
  match r.thinkingBlocks with
  | .arr items => items.toList.filterMap dict?
  | _ => []

/-! ## `parse_stream_line` -/

/-- An entry of `tool_blocks`. -/
structure ToolBlock where
  index : Int
  id : Json := .str ""
  name : Json := .str ""
  input : Members := .nil
  json : String := ""
  deriving DecidableEq, Repr

/-- An entry of `thinking_blocks`. -/
structure ThinkingSlot where
  index : Int
  thinking : String := ""
  signature : String := ""
  deriving DecidableEq, Repr

def thinkingRecord (thinking signature : String) : Members :=
  .cons "type" (.str "thinking")
    (.cons "thinking" (.str thinking) (.cons "signature" (.str signature) .nil))

def ThinkingSlot.record (slot : ThinkingSlot) : Members :=
  thinkingRecord slot.thinking slot.signature

structure Blocks where
  tools : Table ToolBlock.index := .empty
  thinking : Table ThinkingSlot.index := .empty

/-- `setdefault`. -/
def Blocks.toolBlock (blocks : Blocks) (index : Int) : ToolBlock :=
  (blocks.tools.find index).getD { index }

/-- `_thinking_slot`. -/
def Blocks.thinkingSlot (blocks : Blocks) (index : Int) : ThinkingSlot :=
  (blocks.thinking.find index).getD { index }

def Blocks.putTool (blocks : Blocks) (block : ToolBlock) : Blocks :=
  { blocks with tools := blocks.tools.put block }

def Blocks.putThinking (blocks : Blocks) (slot : ThinkingSlot) : Blocks :=
  { blocks with thinking := blocks.thinking.put slot }

def indexOf (data : Members) : Option Int := int? (member data "index" (.int 0))

/-- `_delta_chunk`. -/
def deltaChunk (py : Python) (data : Members) (blocks : Blocks) :
    Option (Option StreamChunk × Blocks) := do
  let delta ← dict? (member data "delta" (.obj .nil))
  let index ← indexOf data
  if isType delta "input_json_delta" then
    let block := blocks.toolBlock index
    let json := block.json ++ py.str (member delta "partial_json" (.str ""))
    return (none, blocks.putTool { block with json })
  else if isType delta "signature_delta" then
    let slot := blocks.thinkingSlot index
    let signature := slot.signature ++ py.str (member delta "signature" (.str ""))
    return (none, blocks.putThinking { slot with signature })
  else
    let data := member delta "thinking" .null
    let text := member delta "text" .null
    if isType delta "thinking_delta" && truthy data then
      let slot := blocks.thinkingSlot index
      return (some (.reasoning data),
        blocks.putThinking { slot with thinking := slot.thinking ++ py.str data })
    else if isType delta "text_delta" && truthy text then return (some (.text text), blocks)
    else return (none, blocks)

/-- `_start_chunk`, which makes no chunk where there are tables. -/
def startChunk (py : Python) (data : Members) (blocks : Blocks) : Option Blocks := do
  let block ← dict? (member data "content_block" (.obj .nil))
  if isType block "thinking" then
    let slot := blocks.thinkingSlot (← indexOf data)
    return blocks.putThinking { slot with
      thinking := slot.thinking ++ py.str (member block "thinking" (.str ""))
      signature := slot.signature ++ py.str (member block "signature" (.str "")) }
  else if isType block "tool_use" then
    let index ← indexOf data
    return blocks.putTool {
      index
      id := member block "id" (.str "")
      name := member block "name" (.str "")
      input := asRecord (member block "input" .null) }
  else return blocks

/-- `_json_record`. -/
def jsonRecord (py : Python) (raw : String) : Members :=
  if raw = "" then .nil
  else
    match py.loads raw.toList with
    | some value => asRecord value
    | none => .nil

/-- The arguments that were sent in pieces, or those that the block started with. -/
def ToolBlock.arguments (py : Python) (block : ToolBlock) : Members :=
  if jsonRecord py block.json ≠ .nil then jsonRecord py block.json else block.input

/-- `_tool_chunk`. -/
def toolChunk (py : Python) (id name : Json) (arguments : Members) : StreamChunk :=
  .toolCall (.str (py.str id)) (.str (py.str name)) (.obj arguments)

/-- What stops at an index. -/
def Blocks.stop (py : Python) (blocks : Blocks) (index : Int) : Option StreamChunk × Blocks :=
  match blocks.thinking.find index with
  | some slot =>
    (some (.reasoning (.obj slot.record)), { blocks with thinking := blocks.thinking.erase index })
  | none =>
    match blocks.tools.find index with
    | some block =>
      (some (toolChunk py block.id block.name (block.arguments py)),
        { blocks with tools := blocks.tools.erase index })
    | none => (none, blocks)

/-- `_stop_chunk`. -/
def stopChunk (py : Python) (data : Members) (blocks : Blocks) :
    Option (Option StreamChunk × Blocks) :=
  (indexOf data).map (blocks.stop py)

/-- `_message_start_usage`. -/
def messageStartUsage (data : Members) : Option (Option StreamChunk) :=
  match data.get? "message" with
  | some (.obj message) =>
    match message.get? "usage" with
    | some (.obj usage) => do
      let promptTokens ← countOr usage "input_tokens"
      let cachedPromptTokens ← countOr usage "cache_read_input_tokens"
      let cacheCreationPromptTokens ← countOr usage "cache_creation_input_tokens"
      return some (.usage { promptTokens, cachedPromptTokens, cacheCreationPromptTokens })
    | _ => some none
  | _ => some none

/-- `_message_delta_usage`. -/
def messageDeltaUsage (data : Members) : Option (Option StreamChunk) :=
  match data.get? "usage" with
  | some (.obj usage) => do
    let promptTokens ← countOr usage "input_tokens"
    let completionTokens ← countOr usage "output_tokens"
    let cachedPromptTokens ← countOr usage "cache_read_input_tokens"
    let cacheCreationPromptTokens ← countOr usage "cache_creation_input_tokens"
    return some (.usage
      { promptTokens, completionTokens, cachedPromptTokens, cacheCreationPromptTokens })
  | _ => some none

/-- `parse_stream_line`: the chunk, if there is one, and what is left in the tables. -/
def parseStreamLine (py : Python) (eventType raw : String) (blocks : Blocks) :
    Option (Option StreamChunk × Blocks) :=
  if raw = "[DONE]" ∨ eventType = "message_stop" then some (some .done, blocks)
  else
    match py.loads raw.toList with
    | none => some (none, blocks)
    | some value =>
      let data := dict? value
      if eventType = "content_block_delta" then data.bind (deltaChunk py · blocks)
      else if eventType = "content_block_start" then
        (data.bind (startChunk py · blocks)).map (none, ·)
      else if eventType = "content_block_stop" then data.bind (stopChunk py · blocks)
      else if eventType = "message_start" then (data.bind messageStartUsage).map (·, blocks)
      else if eventType = "message_delta" then (data.bind messageDeltaUsage).map (·, blocks)
      else if eventType = "error" then none
      else some (none, blocks)

/-! ## `AnthropicAdapter.stream` -/

/-- What stands behind the word and the colon, when a line starts with them. -/
def field? (word : String) (line : List Char) : Option String :=
  if word.toList.isPrefixOf line then
    some (String.ofList (Text.strip (line.drop word.toList.length)))
  else none

/-- The chunks of the lines from here on. -/
def handleLines (py : Python) : (eventType : String) → List (List Char) → Blocks →
    Option (List StreamChunk)
  | _, [], _ => some [.done]
  | eventType, line :: lines, blocks =>
    match field? "event:" line with
    | some eventType => handleLines py eventType lines blocks
    | none =>
      match field? "data:" line with
      | none => handleLines py eventType lines blocks
      | some raw => do
        let (chunk, blocks) ← parseStreamLine py eventType raw blocks
        if chunk = some .done then return [.done]
        else
          let rest ← handleLines py eventType lines blocks
          return chunk.toList ++ rest

def stream (py : Python) (lines : List (List Char)) : Option (List StreamChunk) :=
  handleLines py "" lines {}

/-- A streamed completion. -/
def streamed (py : Python) (lines : List (List Char)) : Option LLMResponse :=
  (stream py lines).bind (completeWithStream py)

end NeuralHub.Adapters.Anthropic
