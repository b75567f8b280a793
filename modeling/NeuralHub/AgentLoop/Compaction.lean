/-
NeuralHub.AgentLoop.Compaction — what compaction does to the history.

Three stages rewrite the list of messages in front of a model call. The
first moves large tool results to files, one a pass, and leaves their ids
alone (`check_and_compact`). The other two, `summarize_archive` and
`ContextCompressor.compact`, cut the messages that are neither system
messages nor summaries into an old and a recent part and put a summary in
the place of the old part: `replaceOld` is their common core. The cut
is moved to the right until no result of the recent part lacks its call.

How many passes there are, whether a stage runs at all and what a summary
says depends on token counts and on a model, so the caller says it here.
A stage that fails returns the list it was given, like a stage that is
not due.

`HistoryPaired.replaceOld` needs that the messages of a pair are not
taken for summaries (`PairsPlain`): `is_summary_message` also reads the
text, and a summary is moved to the front without its neighbour.
-/
import NeuralHub.AgentLoop.Messages
import Mathlib.Data.List.Infix

namespace NeuralHub.AgentLoop

open NeuralHub.Lib

/-! ## `summary_helpers` -/

def summaryPrefixes : List String := ["[对话历史摘要]", "[压缩摘要]"]

def isSummaryMessage (m : Message) : Bool :=
  m.kind == .summary ||
    summaryPrefixes.any fun p => p.toList.isPrefixOf (Text.lstrip m.content.toList)

/-- A summary, the file that the summarised messages went to, and why the
model's summary could not be used. -/
structure Summary where
  text : String
  archivePath : String := ""
  error : String := ""
  deriving DecidableEq, Repr

def buildSummaryMessage (id : Nat) (s : Summary) : Message :=
  let body := String.ofList (Text.strip s.text.toList)
  let body :=
    if s.archivePath ≠ "" ∧ ¬ "无损备份:".toList <:+: body.toList then
      body ++ "\n无损备份: " ++ s.archivePath
    else body
  let body := if s.error ≠ "" then body ++ "\n压缩降级原因: " ++ s.error else body
  { id, role := .user, kind := .summary
    content := "<conversation_summary>\n" ++ body ++ "\n</conversation_summary>" }

@[simp] theorem role_buildSummaryMessage (id : Nat) (s : Summary) :
    (buildSummaryMessage id s).role = .user := rfl

/-! ## `boundary` -/

/-- `_tool_results_paired`: every result answers a call made before it. -/
def toolResultsPaired : List String → List Message → Bool
  | _, [] => true
  | available, m :: rest =>
      let available := available ++ callIds m.toolCalls
      (resultIds m.toolResults).all (fun id => available.contains id) &&
        toolResultsPaired available rest

/-- The first `while` of `align_recent_boundary`. -/
def moveLeadingTools (old : List Message) : List Message → List Message × List Message
  | [] => (old, [])
  | m :: recent =>
      if m.role = .tool then moveLeadingTools (old ++ [m]) recent else (old, m :: recent)

/-- The second `while`. -/
def moveUnpaired (old : List Message) : List Message → List Message × List Message
  | [] => (old, [])
  | m :: recent =>
      if toolResultsPaired [] (m :: recent) then (old, m :: recent)
      else moveUnpaired (old ++ [m]) recent

/-- A reserve below zero acts like zero, so it is a natural number here. -/
def alignRecentBoundary (nonSystem : List Message) (reserve : Nat) :
    List Message × List Message :=
  if reserve = 0 then (nonSystem, [])
  else
    let recent := nonSystem.drop (nonSystem.length - reserve)
    let old := nonSystem.take (nonSystem.length - recent.length)
    let moved := moveLeadingTools old recent
    moveUnpaired moved.1 moved.2

theorem moveLeadingTools_append (old recent : List Message) :
    (moveLeadingTools old recent).1 ++ (moveLeadingTools old recent).2 = old ++ recent := by
  induction recent generalizing old with
  | nil => rfl
  | cons m recent ih =>
    simp only [moveLeadingTools]
    split
    · rw [ih, List.append_assoc, List.singleton_append]
    · rfl

theorem moveUnpaired_append (old recent : List Message) :
    (moveUnpaired old recent).1 ++ (moveUnpaired old recent).2 = old ++ recent := by
  induction recent generalizing old with
  | nil => rfl
  | cons m recent ih =>
    simp only [moveUnpaired]
    split
    · rfl
    · rw [ih, List.append_assoc, List.singleton_append]

/-- The two parts are the list. -/
theorem alignRecentBoundary_append (ms : List Message) (reserve : Nat) :
    (alignRecentBoundary ms reserve).1 ++ (alignRecentBoundary ms reserve).2 = ms := by
  unfold alignRecentBoundary
  split
  · exact List.append_nil ms
  · have hlen : ms.length - (ms.drop (ms.length - reserve)).length = ms.length - reserve := by
      rw [List.length_drop]
      omega
    simp only [hlen, moveUnpaired_append, moveLeadingTools_append, List.take_append_drop]

theorem toolResultsPaired_moveUnpaired (old recent : List Message) :
    toolResultsPaired [] (moveUnpaired old recent).2 = true := by
  induction recent generalizing old with
  | nil => rfl
  | cons m recent ih =>
    simp only [moveUnpaired]
    split
    · assumption
    · exact ih (old ++ [m])

/-- Every result of the recent part answers a call of the recent part. -/
theorem toolResultsPaired_alignRecentBoundary (ms : List Message) (reserve : Nat) :
    toolResultsPaired [] (alignRecentBoundary ms reserve).2 = true := by
  unfold alignRecentBoundary
  split
  · rfl
  · exact toolResultsPaired_moveUnpaired _ _

/-! ## Replacing the old part by a summary -/

def systemMessages (ms : List Message) : List Message := ms.filter (·.role == .system)

def summaryMessages (ms : List Message) : List Message :=
  ms.filter fun m => m.role != .system && isSummaryMessage m

def nonSystemMessages (ms : List Message) : List Message :=
  ms.filter fun m => m.role != .system && !isSummaryMessage m

/-- The messages that a summary replaces. -/
def oldMessages (reserve : Nat) (ms : List Message) : List Message :=
  (alignRecentBoundary (nonSystemMessages ms) reserve).1

def recentMessages (reserve : Nat) (ms : List Message) : List Message :=
  (alignRecentBoundary (nonSystemMessages ms) reserve).2

def replaceOld (id : Nat) (s : Summary) (reserve : Nat) (ms : List Message) : List Message :=
  systemMessages ms ++ summaryMessages ms ++ [buildSummaryMessage id s] ++
    recentMessages reserve ms

/-- `RECENT_KEEP_COUNT` of `level2_compact`. -/
def recentKeepCount : Nat := 6

def summarizeArchive (id : Nat) (s : Summary) (ms : List Message) : List Message :=
  if (nonSystemMessages ms).length ≤ recentKeepCount then ms
  else replaceOld id s recentKeepCount ms

/-- `summarize_and_archive`; there is no summary when none was due or the stage failed. -/
def summarizeAndArchive (id : Nat) (summary : Option Summary) (ms : List Message) :
    List Message :=
  match summary with
  | none => ms
  | some s => summarizeArchive id s ms

/-- `ContextCompressor.compact`, and its `_build_fallback_messages` for an
exception on the way. -/
def compact (id : Nat) (s : Summary) (fallback : Bool) (reserve : Nat) (ms : List Message) :
    List Message :=
  if fallback then replaceOld id s reserve ms
  else if (nonSystemMessages ms).length ≤ reserve then ms
  else if oldMessages reserve ms = [] then ms
  else replaceOld id s reserve ms

/-! ## `level2_compact` -/

/-- What the archiving of results reads and does not compute here: token
counts, the text of a file, and the path argument of a call. -/
structure Archive where
  tokenCount : String → Nat
  /-- `_PATH_RE` occurs in the text -/
  hasHistoryPath : String → Bool
  isHistoryRead : ToolCall → Bool
  /-- `extract_brief` -/
  extractBrief : ToolResult → String

def largeToolResultTokens : Nat := 500

/-- `sink_tool_result`, with the path that `write_artifact` returned. -/
def sinkToolResult (env : Archive) (path : String) (r : ToolResult) : ToolResult :=
  if env.tokenCount r.output ≤ 500 then r
  else
    { r with
      output := env.extractBrief r ++ "\n完整结果: " ++ path
      artifacts := r.artifacts ++ [path] }

/-- The last call with this id, as in `_tool_calls_by_id`. -/
def toolCallById (ms : List Message) (id : String) : Option ToolCall :=
  (ms.flatMap (·.toolCalls)).reverse.find? (·.id == id)

def shouldArchiveResult (env : Archive) (r : ToolResult) (call : Option ToolCall) : Bool :=
  if env.tokenCount r.output ≤ largeToolResultTokens then false
  else if !r.artifacts.isEmpty || env.hasHistoryPath r.output then false
  else
    match call with
    | none => true
    | some call =>
        if call.name = "read_history" then false
        else if call.name = "Read" ∧ env.isHistoryRead call then false
        else true

/-- The inner loop of `_archive_oldest_large_result`, over the results of
one message: the results, and whether one was archived. -/
def archiveResults (env : Archive) (path : String) (head : List Message) :
    List ToolResult → List ToolResult × Bool
  | [] => ([], false)
  | r :: rest =>
      if shouldArchiveResult env r (toolCallById head r.toolCallId) then
        (sinkToolResult env path r :: rest, true)
      else
        let out := archiveResults env path head rest
        (r :: out.1, out.2)

/-- `_archive_oldest_large_result`; `head` is the list it started with. -/
def archiveOldestLargeResult (env : Archive) (path : String) (head : List Message) :
    List Message → List Message × Bool
  | [] => ([], false)
  | m :: rest =>
      if m.role ≠ .tool ∨ m.toolResults = [] then
        let out := archiveOldestLargeResult env path head rest
        (m :: out.1, out.2)
      else
        match archiveResults env path head m.toolResults with
        | (results, true) => ({ m with toolResults := results } :: rest, true)
        | (results, false) =>
            let out := archiveOldestLargeResult env path head rest
            ({ m with toolResults := results } :: out.1, out.2)

def compactOldestLargeToolResult (env : Archive) (path : String) (ms : List Message) :
    List Message × Bool :=
  if ms.length ≤ recentKeepCount then (ms, false)
  else
    let head := ms.take (ms.length - recentKeepCount)
    let tail := ms.drop (ms.length - recentKeepCount)
    let out := archiveOldestLargeResult env path head head
    (out.1 ++ tail, out.2)

/-- The loop of `check_and_compact`: one path for each pass in which the
history was still over the threshold. -/
def compactPasses (env : Archive) : List String → List Message → List Message
  | [], ms => ms
  | path :: paths, ms =>
      match compactOldestLargeToolResult env path ms with
      | (ms, true) => compactPasses env paths ms
      | (ms, false) => ms

/-- `check_and_compact`; `readable` is `_has_read_history` of the tools. -/
def checkAndCompact (env : Archive) (readable : Bool) (paths : List String)
    (ms : List Message) : List Message :=
  if readable then compactPasses env paths ms else ms

/-! ## `compaction_writeback` -/

/-- `reattach_concurrent_messages` -/
def reattachConcurrentMessages (compacted messages : List Message) (snapshotLen : Nat) :
    List Message :=
  let appended := messages.drop snapshotLen
  if appended = [] then compacted
  else
    compacted ++ appended.filter fun m => !(compacted.map (·.id)).contains m.id

/-- Nothing is taken back in when nothing was appended meanwhile. -/
@[simp] theorem reattachConcurrentMessages_length (compacted messages : List Message) :
    reattachConcurrentMessages compacted messages messages.length = compacted := by
  simp [reattachConcurrentMessages]

end NeuralHub.AgentLoop
