/-
NeuralHub.Adapters.OpenAI — responses of an OpenAI-compatible provider,
plain and streamed: `openai_support.py`, `openai_usage.py` and the reading
of lines in `openai_streaming.py`.

`none` stands for an exception: an attribute of something that is no
dictionary, a value that pydantic refuses. Left out are the retries and the
counters around a stream. The index of a streamed tool call is an integer
here; other values would be keys of the same table.
-/
import NeuralHub.Adapters.Streaming
import NeuralHub.Lib.Table
import Mathlib.Data.List.Sort

namespace NeuralHub.Adapters.OpenAI

open NeuralHub.Lib
open NeuralHub.Plan (truthy)

/-! ## Parts of a response -/

/-- `(data.get("choices") or [{}])[0]`. -/
def firstChoice (data : Members) : Option Members :=
  let choices := member data "choices" .null
  if truthy choices then
    match choices with
    | .arr (.cons choice _) => dict? choice
    | _ => none
  else some .nil

/-- `message.get("tool_calls", []) or []`. -/
def toolCallItems (message : Members) : Option (List Json) :=
  let items := member message "tool_calls" (.arr .nil)
  if truthy items then list? items else some []

/-! ## `parse_response` -/

/-- `parse_args`. -/
def parseArgs (py : Python) (raw : Json) : Json :=
  match raw with
  | .obj members => .obj members
  | .str s =>
    if s = "" then .obj .nil
    else
      match py.loads s.toList with
      | some value => value
      | none => .obj (.cons "raw" raw .nil)
  | _ => if truthy raw then .obj (.cons "raw" raw .nil) else .obj .nil

def plainToolCall (py : Python) (item : Json) : Option ToolCall := do
  let call ← dict? item
  let function ← dict? (member call "function" (.obj .nil))
  let id ← str? (member call "id" (.str ""))
  let name ← str? (member function "name" (.str ""))
  let arguments ← dict? (parseArgs py (member function "arguments" (.str "")))
  return { id, name, arguments }

/-- `_provider_metadata`. -/
def providerMetadata (message : Members) : Members :=
  match message.get? "reasoning_content" with
  | some (.str reasoning) =>
    if reasoning ≠ "" then .cons "reasoning_content" (.str reasoning) .nil else .nil
  | _ => .nil

/-- The tokens read from a cache, in a plain response. -/
def cachedTokens (usage : Members) : Json :=
  match member usage "prompt_tokens_details" (.obj .nil) with
  | .obj details => member details "cached_tokens" (.int 0)
  | _ => .int 0

def parseResponse (py : Python) (data : Members) : Option LLMResponse := do
  let choice ← firstChoice data
  let message ← dict? (member choice "message" (.obj .nil))
  let items ← toolCallItems message
  let toolCalls ← items.mapM (plainToolCall py)
  let usage ← dict? (member data "usage" (.obj .nil))
  let cached := cachedTokens usage
  let content ← textOr (member message "content" (.str ""))
  let prompt ← countOr usage "prompt_tokens"
  let cachedOr ← intOr cached
  let completionTokens ← int? (member usage "completion_tokens" (.int 0))
  let cachedPromptTokens ← int? cached
  return {
    content
    toolCalls
    usage := { promptTokens := max (prompt - cachedOr) 0, completionTokens, cachedPromptTokens }
    providerMetadata := providerMetadata message }

/-! ## `parse_stream_line` -/

/-- An entry of `tool_chunks`. -/
structure Buffer where
  index : Int
  id : Json := .str ""
  name : Json := .str ""
  arguments : String := ""
  deriving DecidableEq, Repr

abbrev ToolChunks := Table Buffer.index

/-- `setdefault`. -/
def bufferAt (chunks : ToolChunks) (index : Int) : Buffer := (chunks.find index).getD { index }

/-- What a delta adds to the arguments. -/
def argumentsText (py : Python) : Json → String
  | .obj members => String.ofList (Json.obj members).text
  | .null => ""
  | value => py.str value

def addToolCall (py : Python) (chunks : ToolChunks) (item : Json) : Option ToolChunks := do
  let call ← dict? item
  let index ← int? (member call "index" (.int 0))
  let buffer := bufferAt chunks index
  let function ← dict? (member call "function" (.obj .nil))
  return chunks.put
    { index
      id := member call "id" buffer.id
      name := member function "name" buffer.name
      arguments := buffer.arguments ++ argumentsText py (member function "arguments" (.str "")) }

/-- `flush_tool_calls`, which also empties the table. -/
def flushToolCalls (py : Python) (chunks : ToolChunks) : List StreamChunk :=
  ((chunks.entries.insertionSort fun a b => a.index ≤ b.index).filter fun buffer =>
    truthy buffer.name).map fun buffer =>
      .toolCall buffer.id buffer.name (parseArgs py (.str buffer.arguments))

/-- The tokens read from a cache, in a frame. -/
def cachedCount (usage : Members) : Option Int :=
  match usage.get? "prompt_tokens_details" with
  | some (.obj details) => countOr details "cached_tokens"
  | _ => some 0

/-- `usage_stream_chunk`. -/
def usageStreamChunk (data : Members) : Option (List StreamChunk) :=
  match data.get? "usage" with
  | some (.obj usage) =>
    if usage = .nil then some []
    else do
      let cached ← cachedCount usage
      let prompt ← countOr usage "prompt_tokens"
      let completionTokens ← countOr usage "completion_tokens"
      return [.usage {
        promptTokens := max (prompt - cached) 0, completionTokens, cachedPromptTokens := cached }]
  | _ => some []

/-- A chunk for a member of the delta that is not empty. -/
def deltaChunk (delta : Members) (key : String) (chunk : Json → StreamChunk) : List StreamChunk :=
  match delta.get? key with
  | some value => if truthy value then [chunk value] else []
  | none => []

/-- `choice.get("finish_reason") == "tool_calls"`. -/
def finishesToolCalls (choice : Members) : Bool :=
  choice.get? "finish_reason" == some (.str "tool_calls")

/-- `parse_stream_line`: the chunks, and what is left in the table. -/
def parseStreamLine (py : Python) (raw : List Char) (chunks : ToolChunks) :
    Option (List StreamChunk × ToolChunks) :=
  match py.loads raw with
  | none => some ([], chunks)
  | some value => do
    let data ← dict? value
    let choice ← firstChoice data
    let delta ← dict? (member choice "delta" (.obj .nil))
    let items ← toolCallItems delta
    let chunks ← items.foldlM (addToolCall py) chunks
    let usage ← usageStreamChunk data
    let out := deltaChunk delta "reasoning_content" .reasoning ++
      deltaChunk delta "content" .text ++ usage
    if finishesToolCalls choice then return (out ++ flushToolCalls py chunks, .empty)
    else return (out, chunks)

/-! ## `_handle_stream_response` -/

/-- What a line carries, when it is a line of data. -/
def payload? (line : List Char) : Option (List Char) :=
  if "data:".toList.isPrefixOf line then some (Text.strip (line.drop 5)) else none

/-- The chunks of the lines from here on. -/
def handleLines (py : Python) : List (List Char) → ToolChunks → Option (List StreamChunk)
  | [], chunks => some (flushToolCalls py chunks ++ [.done])
  | line :: lines, chunks =>
    match payload? line with
    | none => handleLines py lines chunks
    | some raw =>
      if raw = "[DONE]".toList then some (flushToolCalls py chunks ++ [.done])
      else do
        let (out, chunks) ← parseStreamLine py raw chunks
        let rest ← handleLines py lines chunks
        return out ++ rest

def handleStreamResponse (py : Python) (lines : List (List Char)) : Option (List StreamChunk) :=
  handleLines py lines .empty

/-- A streamed completion. -/
def streamed (py : Python) (lines : List (List Char)) : Option LLMResponse :=
  (handleStreamResponse py lines).bind (completeWithStream py)

end NeuralHub.Adapters.OpenAI
