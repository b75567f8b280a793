/-
NeuralHub.Compression.Level2 — the large tool results of a conversation
are moved into files, the oldest first, while the conversation uses too
much of the context.

Source: `level1_artifact.py`, `level2_compact.py`, `token_counter.py`, and
`LayeredCompressor.check_and_compact`.

The arguments of a call stand as the JSON text that is counted. `clock` is
the reading of the clock in each pass as `strftime` prints it, and
`writeFails` says in which passes the directory or the file cannot be
written; `directory` is the resolved directory of the session. The usage
in percent is compared as a floating-point number, of which it is used
only that more tokens are not a smaller usage (`Threshold`).
-/
import Mathlib.Algebra.GroupWithZero.Nat
import NeuralHub.AgentLoop.Messages
import NeuralHub.Compression.Artifacts
import NeuralHub.Lib.Dict
import NeuralHub.Plan.PlanResponse

namespace NeuralHub.Compression

open NeuralHub.Lib
open NeuralHub.AgentLoop (Message ToolCall ToolResult)
open NeuralHub.Plan (truthy)

/-! ## Tokens -/

def isCjk (c : Char) : Bool :=
  (0x3400 ≤ c.toNat && c.toNat ≤ 0x9FFF) || (0xF900 ≤ c.toNat && c.toNat ≤ 0xFAFF) ||
    (0x3040 ≤ c.toNat && c.toNat ≤ 0x30FF) || (0xAC00 ≤ c.toNat && c.toNat ≤ 0xD7AF) ||
    (0xFF00 ≤ c.toNat && c.toNat ≤ 0xFFEF)

def estimateTokens (text : String) : Nat :=
  text.toList.countP isCjk + text.toList.countP (fun c => !isCjk c) / 4

def tokenCount (text : String) : Nat := if text ≠ "" then max 1 (estimateTokens text) else 0

def estimateMessageTokens (message : Message) : Nat :=
  estimateTokens message.content +
    (message.toolCalls.map fun call => estimateTokens call.arguments).sum +
    (message.toolResults.map fun result => estimateTokens result.output).sum

def estimateMessagesTokens (messages : List Message) : Nat :=
  (messages.map estimateMessageTokens).sum

/-! ## The brief of a result -/

def clip (text : List Char) (limit : Nat) : List Char :=
  if text.length ≤ limit then text
  else text.take limit ++ ("...[truncated " ++ toString (text.length - limit) ++ " chars]").toList

/-- The characters that end a line for `splitlines`. -/
def isLineBreak (c : Char) : Bool :=
  ['\n', '\r', '\x0b', '\x0c', '\x1c', '\x1d', '\x1e', '\u0085', '\u2028', '\u2029'].contains c

/-- The first of the lines of the stripped text. -/
def firstLine (output : List Char) : List Char :=
  (Text.strip output).takeWhile fun c => !isLineBreak c

def firstItems : Nat → Items → Items
  | n + 1, .cons item rest => .cons item (firstItems n rest)
  | _, _ => .nil

def firstMembers : Nat → Members → Members
  | n + 1, .cons key value rest => .cons key value (firstMembers n rest)
  | _, _ => .nil

/-- `_brief_json`; of a list or an object the first three entries. -/
def briefJson : Json → List Char
  | .arr items => clip (Json.arr (firstItems 3 items)).text 800
  | .obj members => clip (Json.obj (firstMembers 3 members)).text 800
  | .str s => clip s.toList 800
  | .int n => clip (decimal n) 800
  | .float x => clip x.repr 800
  | .bool true => "True".toList
  | .bool false => "False".toList
  | .null => "None".toList

/-- An output with half a surrogate pair is not written, and gets no brief. -/
def extractBrief (fl : FloatReading) (result : ToolResult) : List Char :=
  let head := if result.isError then "[工具结果摘要:error]\n" else "[工具结果摘要]\n"
  let output := result.output.toList
  head.toList ++
    match parseJson fl output with
    | .value parsed => briefJson parsed
    | _ => clip (if firstLine output ≠ [] then firstLine output else output) 800

/-! ## Writing an artifact -/

/-- What the files and the clock do. -/
structure ArtifactEnv where
  directory : String
  clock : Nat → String
  writeFails : Nat → Bool
  /-- `str` of a value that is not a string. -/
  str : Json → String
  floats : FloatReading

abbrev ArtifactFiles := Dict (List Char)

def isNameChar (c : Char) : Bool := c.isAlphanum || c = '_' || c = '.' || c = '-'

/-- A run of other characters becomes one hyphen. -/
def hyphenate : List Char → List Char
  | [] => []
  | c :: rest =>
    if isNameChar c then c :: hyphenate rest
    else if (rest.head?.map isNameChar).getD true then '-' :: hyphenate rest
    else hyphenate rest

def safeName (value : String) : String :=
  let name := (hyphenate (Text.strip value.toList)).take 80
  if name = [] then "default" else String.ofList name

def artifactPath (env : ArtifactEnv) (pass : Nat) (result : ToolResult) : String :=
  env.directory ++ "/" ++
    safeName (if result.toolCallId = "" then "tool" else result.toolCallId) ++ "_" ++
    env.clock pass ++ ".json"

/-- What stands in the place of an output that was written to the path. -/
def stub (fl : FloatReading) (result : ToolResult) (path : String) : ToolResult :=
  { result with
    output := String.ofList (extractBrief fl result) ++ "\n完整结果: " ++ path
    artifacts := result.artifacts ++ [path] }

/-- `sink_tool_result`; `none` if it raises. -/
def sinkToolResult (env : ArtifactEnv) (pass : Nat) (result : ToolResult)
    (files : ArtifactFiles) : Option (ToolResult × ArtifactFiles) :=
  if tokenCount result.output ≤ 500 then some (result, files)
  else if env.writeFails pass then none
  else
    let path := artifactPath env pass result
    (writeArtifact env.floats result.output.toList).map fun text =>
      (stub env.floats result path, files.set path text)

/-! ## The oldest large result -/

def historyRoots : List String := ["data/artifacts/", "data/sessions/", "data/steps/"]

/-- `_PATH_RE.search`: one of the directories, and a character that is no white space. -/
def hasHistoryPath : List Char → Bool
  | [] => false
  | c :: rest =>
    historyRoots.any (fun root => root.toList.isPrefixOf (c :: rest) &&
      (((c :: rest).drop root.length).head?.any fun next => !Text.isSpace next)) ||
    hasHistoryPath rest

/-- `str(arguments.get("path") or arguments.get("file_path") or "")`. -/
def pathArgument (env : ArtifactEnv) (arguments : Members) : String :=
  match ((arguments.get? "path").filter truthy).or ((arguments.get? "file_path").filter truthy) with
  | some (.str s) => s
  | some value => env.str value
  | none => ""

def isHistoryRead (env : ArtifactEnv) (call : ToolCall) : Bool :=
  match load call.arguments.toList with
  | .value (.obj arguments) =>
    let slashed := (pathArgument env arguments).toList.map fun c => if c = '\\' then '/' else c
    let normalized := slashed.dropWhile fun c => c = '.' || c = '/'
    historyRoots.any fun root => root.toList.isPrefixOf normalized
  | _ => false

/-- The last call with the id. -/
def callById (messages : List Message) (id : String) : Option ToolCall :=
  (messages.flatMap (·.toolCalls)).reverse.find? (·.id = id)

def shouldArchiveResult (env : ArtifactEnv) (result : ToolResult) (call : Option ToolCall) :
    Bool :=
  if tokenCount result.output ≤ 500 then false
  else if result.artifacts ≠ [] ∨ hasHistoryPath result.output.toList then false
  else
    match call with
    | none => true
    | some call =>
      if call.name = "read_history" then false
      else if call.name = "Read" ∧ isHistoryRead env call then false
      else true

/-- A list that has been gone through, with the files and whether a result was archived;
`none` if a write raised. -/
abbrev Scanned (α : Type) := Option (List α × Bool × ArtifactFiles)

/-- The inner loop: the results of one message. -/
def archiveResults (env : ArtifactEnv) (pass : Nat) (head : List Message)
    (files : ArtifactFiles) : List ToolResult → Scanned ToolResult
  | [] => some ([], false, files)
  | result :: rest =>
    if shouldArchiveResult env result (callById head result.toolCallId) then
      (sinkToolResult env pass result files).map fun out => (out.1 :: rest, true, out.2)
    else
      (archiveResults env pass head files rest).map fun out => (result :: out.1, out.2)

/-- `_archive_oldest_large_result`, from one message on; `head` is the whole list. -/
def archiveOldest (env : ArtifactEnv) (pass : Nat) (head : List Message)
    (files : ArtifactFiles) : List Message → Scanned Message
  | [] => some ([], false, files)
  | message :: rest =>
    if message.role ≠ .tool ∨ message.toolResults = [] then
      (archiveOldest env pass head files rest).map fun out => (message :: out.1, out.2)
    else
      match archiveResults env pass head files message.toolResults with
      | none => none
      | some (results, true, files) =>
        some ({ message with toolResults := results } :: rest, true, files)
      | some (results, false, files) =>
        (archiveOldest env pass head files rest).map fun out =>
          ({ message with toolResults := results } :: out.1, out.2)

def recentKeepCount : Nat := 6

def compactOldestLargeToolResult (env : ArtifactEnv) (pass : Nat) (files : ArtifactFiles)
    (messages : List Message) : Scanned Message :=
  if messages.length ≤ recentKeepCount then some (messages, false, files)
  else
    let head := messages.take (messages.length - recentKeepCount)
    let tail := messages.drop (messages.length - recentKeepCount)
    (archiveOldest env pass head files head).map fun out => (out.1 ++ tail, out.2)

/-! ## The loop -/

/-- The usage of the context above the threshold, by the tokens of the messages. -/
structure Threshold where
  exceeds : Nat → Bool
  mono : ∀ {m n : Nat}, m ≤ n → exceeds m = true → exceeds n = true

def hasReadHistory (tools : Option (List String)) : Bool :=
  match tools with
  | none => true
  | some names => names.contains "read_history"

/-- How the loop ends. -/
inductive LoopEnd where
  | compacted (messages : List Message) (files : ArtifactFiles)
  | raised (files : ArtifactFiles)

/-- The loop from a pass on; `none` if it takes more passes than `fuel`. -/
def compactLoop (env : ArtifactEnv) (threshold : Threshold) :
    Nat → Nat → ArtifactFiles → List Message → Option LoopEnd
  | 0, _, _, _ => none
  | fuel + 1, pass, files, messages =>
    if threshold.exceeds (estimateMessagesTokens messages) then
      match compactOldestLargeToolResult env pass files messages with
      | none => some (.raised files)
      | some (messages, true, files) => compactLoop env threshold fuel (pass + 1) files messages
      | some (messages, false, files) => some (.compacted messages files)
    else some (.compacted messages files)

/-- `check_and_compact`. -/
def checkAndCompact (env : ArtifactEnv) (threshold : Threshold) (tools : Option (List String))
    (fuel : Nat) (files : ArtifactFiles) (messages : List Message) :
    Option (List Message × ArtifactFiles) :=
  if hasReadHistory tools then
    (compactLoop env threshold fuel 0 files messages).map fun
      | .compacted messages files => (messages, files)
      | .raised files => (messages, files)
  else some (messages, files)

end NeuralHub.Compression
