/-
NeuralHub.AgentLoop.Summaries — the two stages that put a summary in the
place of old messages, with everything that can go wrong on the way:
`compressor.py`, `level3_summary.py` and the part of
`layered_compressor.py` that calls it.

`Compaction` says what such a stage makes of the list. Here is how it gets
there: it asks a model for a summary and makes one of its own when that
fails, `ContextCompressor.compact` has a second fallback for every other
exception, and `summarize_archive` writes the old messages to a file
before it asks.

A stage takes its parts from the list it was called with, before the model
is asked. `live` is what the list holds when the model has answered; the
paths that return late read that one.

A message as a line of the archive (`model_dump_json`) is a parameter,
`dump`. The prompts of the stages are left out: they only go to the model.
-/
import NeuralHub.AgentLoop.Compaction

namespace NeuralHub.AgentLoop

open NeuralHub.Lib

/-! ## Texts -/

/-- `_clip_text`, and `_clip` of `level3_summary`. -/
def clipText (text : String) (limit : Nat) : String :=
  if text.length ≤ limit then text
  else
    String.ofList (text.toList.take limit) ++ "...[truncated " ++
      toString (text.length - limit) ++ " chars]"

def Role.text : Role → String
  | .user => "user"
  | .assistant => "assistant"
  | .system => "system"
  | .tool => "tool"

/-- `f"{index}. {line}"` for every line, counted from one. -/
def numbered (lines : List String) : String :=
  let details := "\n".intercalate (lines.mapIdx fun i line => toString (i + 1) ++ ". " ++ line)
  if details = "" then "无" else details

/-! ## `ContextCompressor` -/

namespace ContextCompressor

/-- `_build_tool_name_index` with `tool_names.get`. -/
def toolName (messages : List Message) (id : String) : String :=
  ((toolCallById messages id).map (·.name)).getD "unknown_tool"

def renderToolCall (call : ToolCall) : String :=
  call.name ++ "(" ++ clipText call.arguments 200 ++ ")"

def renderToolMessage (toolNames : String → String) (m : Message) : String :=
  if m.toolResults = [] then "role=tool ; no_results"
  else
    let parts := m.toolResults.map fun r =>
      toolNames r.toolCallId ++ "[" ++ (if r.isError then "error" else "ok") ++ "]=" ++
        clipText r.output 200
    " ; ".intercalate ("role=tool" :: parts)

def renderMessage (toolNames : String → String) (m : Message) : String :=
  if m.role = .tool then renderToolMessage toolNames m
  else
    let content := if m.content = "" then [] else ["content=" ++ clipText m.content 1000]
    let calls :=
      if m.toolCalls = [] then []
      else ["tool_calls=" ++ " | ".intercalate (m.toolCalls.map renderToolCall)]
    " ; ".intercalate (["role=" ++ m.role.text] ++ content ++ calls)

def buildFallbackSummary (messages : List Message) : String :=
  let details := numbered (messages.map fun m => clipText (renderMessage (toolName messages) m) 100)
  "<structured_summary>\n" ++
  "  <goal>摘要模型调用失败，需基于降级摘要继续。</goal>\n" ++
  "  <constraints>无</constraints>\n" ++
  "  <identifiers>降级摘要可能不完整，关键标识符需回查历史。</identifiers>\n" ++
  "  <decisions>无</decisions>\n" ++
  "  <failures>摘要模型调用失败，已按较早消息截断生成摘要。</failures>\n" ++
  "  <pending>" ++ clipText details 1800 ++ "</pending>\n" ++
  "  <narrative>较早历史已被降级压缩，继续任务前应优先确认关键约束和路径。</narrative>\n" ++
  "</structured_summary>"

end ContextCompressor

/-- How the summary comes about. -/
inductive SummaryOutcome
  /-- the model answered with this text -/
  | content (text : String)
  /-- the request raised an error with this text -/
  | failed (message : String)
  /-- another exception, outside of the request -/
  | unexpected (message : String)
  /-- another exception, and one more while it was handled -/
  | escaped (message : String)
  deriving DecidableEq, Repr

/-- What `request_summary` makes of an answer: a blank one is an error. -/
def requestedSummary (text : String) : Except String String :=
  let summary := String.ofList (Text.strip text.toList)
  if summary = "" then .error "Summary response was empty" else .ok summary

namespace ContextCompressor

/-- The summary of the old messages when the request ended, one way or the other. -/
def summaryOf (old : List Message) (request : Except String String) : Summary :=
  match request with
  | .ok text => { text }
  | .error message => { text := buildFallbackSummary old, error := message }

def buildFallbackMessages (id reserve : Nat) (messages : List Message) (error : String) :
    List Message :=
  replaceOld id { text := buildFallbackSummary (oldMessages reserve messages), error } reserve messages

/-- `ContextCompressor.compact`; `_build_fallback_messages` reads the list
as it is by then. -/
def compact (id reserve : Nat) (outcome : SummaryOutcome) (messages live : List Message) :
    Except String (List Message) :=
  if (nonSystemMessages messages).length ≤ reserve then .ok messages
  else
    let old := oldMessages reserve messages
    if old = [] then .ok messages
    else
      match outcome with
      | .content text => .ok (replaceOld id (summaryOf old (requestedSummary text)) reserve messages)
      | .failed message => .ok (replaceOld id (summaryOf old (.error message)) reserve messages)
      | .unexpected message => .ok (buildFallbackMessages id reserve live message)
      | .escaped message => .error message

end ContextCompressor

/-! ## `level3_summary` -/

/-- How `summarize_archive` fared: the path of the archive, or the error of
writing it, and then the summary. -/
structure ArchiveRun where
  written : Except String String
  outcome : SummaryOutcome

/-- The text of the file that `write_session_archive` writes. -/
def writeSessionArchive (dump : Message → List Char) (messages : List Message) : List Char :=
  Text.joinLines (messages.map dump)

def toolText (m : Message) : String := " | ".intercalate (m.toolResults.map (·.output))

/-- `fallback_summary`. -/
def fallbackSummary (messages : List Message) (archivePath : String) : String :=
  let rendered := messages.map fun m =>
    m.role.text ++ ": " ++ clipText (if m.content = "" then toolText m else m.content) 240
  "<structured_summary>\n" ++
  "  <goal>LLM 摘要失败，需基于降级摘要继续。</goal>\n" ++
  "  <constraints>无</constraints>\n" ++
  "  <identifiers>详见无损备份路径，必要时调用 read_history 回查。</identifiers>\n" ++
  "  <decisions>无</decisions>\n" ++
  "  <failures>摘要 LLM 调用失败，已生成降级摘要。</failures>\n" ++
  "  <pending>" ++ clipText (numbered rendered) 1800 ++ "</pending>\n" ++
  "  <narrative>较早历史已写入无损备份，继续任务时优先回查关键路径和标识符。</narrative>\n" ++
  "</structured_summary>\n" ++
  "无损备份: " ++ archivePath

def archivedSummary (old : List Message) (archivePath : String) (request : Except String String) :
    Summary :=
  match request with
  | .ok text => { text, archivePath }
  | .error _ => { text := fallbackSummary old archivePath, archivePath }

/-- A file, and what is in it. -/
abbrev ArchiveFile := String × List Char

namespace Level3

/-- `summarize_archive`: the file it has written, and its list or its `Level3SummaryError`. -/
def summarizeArchive (dump : Message → List Char) (id : Nat) (run : ArchiveRun)
    (messages : List Message) : Option ArchiveFile × Except String (List Message) :=
  if (nonSystemMessages messages).length ≤ recentKeepCount then (none, .ok messages)
  else
    let old := oldMessages recentKeepCount messages
    match run.written with
    | .error message => (none, .error message)
    | .ok path =>
      let replaced := fun request =>
        Except.ok (replaceOld id (archivedSummary old path request) recentKeepCount messages)
      let result :=
        match run.outcome with
        | .content text => replaced (requestedSummary text)
        | .failed message => replaced (.error message)
        | .unexpected message | .escaped message => .error message
      (some (path, writeSessionArchive dump old), result)

end Level3

namespace LayeredCompressor

/-- `summarize_and_archive`; `due` says that the history is over the
threshold. An error leaves the list as it is by then. -/
def summarizeAndArchive (dump : Message → List Char) (id : Nat) (due : Bool) (run : ArchiveRun)
    (messages live : List Message) : Option ArchiveFile × List Message :=
  if due then
    match Level3.summarizeArchive dump id run messages with
    | (file, .ok summarized) => (file, summarized)
    | (file, .error _) => (file, live)
  else (none, messages)

end LayeredCompressor

end NeuralHub.AgentLoop
