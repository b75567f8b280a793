/-
NeuralHub.AgentLoop.Run — `run_agent_loop` as a machine.

There is one program point for each `await`. `resume` takes what the
awaited call gives back, runs the code up to the next `await` and says
where the loop is then; `raised` and `cancelled` are an exception and a
`CancelledError` at the `await`. Between two awaits nothing else runs on
the event loop, so this is the granularity at which other code
(`queue_user_message`, `abort`, a change of the tools or of the user's
settings) interleaves. Exceptions of the synchronous code behind an
`await` act like exceptions at it: the history is written only right
before an `await`, or last before one (compaction).

`finally` is `finish`. The handlers are `errorMetric` (`except
Exception` measures first, then patches) and `patchAndCheckpoint` alone
(`except BaseException`). Events, logs and the status of the loop are
left out, and so are the requests that go to the model and to the
reviewer: what comes back is an argument of `resume`.
-/
import NeuralHub.Lib.Machine
import NeuralHub.AgentLoop.Compaction
import NeuralHub.AgentLoop.ToolPhase

namespace NeuralHub.AgentLoop

open NeuralHub.Lib

structure Config where
  systemPrompt : String := ""
  maxIterations : Nat := 20
  maxConsecutiveToolFailures : Int := 5
  deadEndReflectionIteration : Int := 10
  /-- `get_reserve_count` of the threshold policy -/
  reserveRecentCount : Nat := 6
  archive : Archive
  describe : Describe
  sign : Sign

structure LLMResponse where
  content : String
  toolCalls : List ToolCall := []
  /-- `provider_metadata.get("reasoning_content", "")` -/
  reasoningContent : String := ""
  deriving DecidableEq, Repr

def responseContent (r : LLMResponse) : String :=
  if Text.strip r.content.toList ≠ [] ∨ r.toolCalls ≠ [] then r.content else r.reasoningContent

def assistantMessage (id : Nat) (r : LLMResponse) : Message :=
  { id, role := .assistant, content := responseContent r, toolCalls := r.toolCalls }

/-! ## `agent_loop_guard` -/

structure AgentLoopGuard where
  deadEndEmitted : Bool := false
  finalEmitted : Bool := false
  deriving DecidableEq, Repr

def deadEndReflectionPrompt (iteration : Nat) : String :=
  joinLines
    ["[死胡同反思]",
      "你已经进行了 " ++ toString iteration ++ " 轮思考/工具调用，继续重复探索的收益可能很低。",
      "请先停下来判断：当前是否卡在错误路径、无关细节、重复读取、重复失败或目标不清。",
      "下一步只能选择一种策略：",
      "1. 明确换策略：换工具、换参数、缩小范围，说明为什么新策略不同。",
      "2. 已有信息足够：停止调用工具，直接输出阶段性结论或最终答案。",
      "3. 信息不足且无法推进：明确说明卡点，并向用户提出一个具体问题。",
      "不要继续进行没有新增信息的读取、搜索或重试。",
      "必须继续遵守本次任务原有的输出协议和格式；",
      "如果原任务要求 JSON、代码块或固定模板，最终输出仍必须使用该格式。"]

def finalConvergencePrompt (iteration maxIterations : Nat) : String :=
  joinLines
    ["[最终收口提示]",
      "这是第 " ++ toString iteration ++ "/" ++ toString maxIterations ++
        " 轮，已经到达本次 AgentLoop 的执行上限。",
      "本轮必须优先收口：如果没有绝对必要，不要再调用工具。",
      "请基于已有上下文给出最可靠的结论；如仍不能完成，说明已尝试路径、失败原因和下一步建议。",
      "必须继续遵守本次任务原有的输出协议和格式；",
      "如果原任务要求 JSON、代码块或固定模板，最终输出仍必须使用该格式。"]

def AgentLoopGuard.promptForIteration (cfg : Config) (g : AgentLoopGuard) (iteration : Nat) :
    AgentLoopGuard × Option String :=
  let maxIterations := max 1 cfg.maxIterations
  if maxIterations ≤ iteration ∧ g.finalEmitted = false then
    ({ g with finalEmitted := true }, some (finalConvergencePrompt iteration maxIterations))
  else if max 1 cfg.deadEndReflectionIteration ≤ iteration ∧ g.deadEndEmitted = false then
    ({ g with deadEndEmitted := true }, some (deadEndReflectionPrompt iteration))
  else (g, none)

def guardMessage (id : Nat) (prompt : String) : Message :=
  { id, role := .user, kind := .runtimeGuard, ephemeral := true
    content := "<system_directive>\n" ++ prompt ++
      "\n这是系统注入的运行时指令，不是用户的新任务。\n</system_directive>" }

/-! ## States -/

inductive Failure where
  | loopAborted | loopMaxIterations | other
  deriving DecidableEq, Repr

/-- How a run ends. -/
inductive RunOutcome where
  | returned (m : Message)
  | raised (f : Failure)
  | cancelled
  deriving DecidableEq, Repr

/-- The calls of one response on their way to results. -/
structure Turn where
  calls : List ToolCall
  skipped : List ToolResult
  auth : AuthorizeResult
  approvals : Approvals := {}
  deriving DecidableEq, Repr

/-- The `await` at which the loop stands; `idle` between the runs. -/
inductive Point where
  | idle (last : Option RunOutcome)
  /-- appending a text that the previous run left, with `rest` to come -/
  | leftover (rest : List String) (userMessage : String)
  | userAppend
  | runMetric
  /-- appending a text queued during this run, with `rest` to come -/
  | steering (rest : List String)
  | compactOldest (snapshotLen : Nat)
  | archive (snapshotLen : Nat)
  | compact (snapshotLen : Nat)
  | guardAppend
  | llm
  | assistantAppend (m : Message)
  | finishMetric (m : Message)
  | review (t : Turn)
  | approval (t : Turn) (call : ToolCall) (rest : List ToolCall)
  | readBatch (t : Turn) (signed : List SignedToolCall)
  | writeBatch (t : Turn) (signed : List SignedToolCall) (readResults : List (Option ToolResult))
  | toolAppend
  /-- `record_latency_sample` in the handler of an exception -/
  | errorMetric (f : Failure)
  /-- `checkpoint_from` in either handler -/
  | patchCheckpoint (o : RunOutcome)
  deriving DecidableEq, Repr

/-- An `AgentLoop` and the locals of its run. -/
structure State where
  history : List Message := []
  pending : List String := []
  aborted : Bool := false
  gate : SecurityGate
  /-- the tool registry -/
  tools : List ToolDefinition := []
  autoApproveTools : Bool := false
  nextId : Nat := 0
  point : Point := .idle none
  iteration : Nat := 0
  guard : AgentLoopGuard := {}
  recovery : ToolFailureRecoveryTracker
  /-- `tool_definitions` of this iteration -/
  definitions : List ToolDefinition := []
  deriving DecidableEq, Repr

def Point.isIdle : Point → Bool
  | .idle _ => true
  | _ => false

theorem isIdle_iff {p : Point} : p.isIdle = true ↔ ∃ last, p = .idle last := by
  cases p <;> simp [Point.isIdle]

/-- `PendingMessageQueue.push` -/
def push (pending : List String) (text : String) : List String :=
  let cleaned := Text.strip text.toList
  if cleaned = [] then pending else pending ++ [String.ofList cleaned]

/-! ## The code between two awaits -/

namespace State

/-- `_append_message` up to its `await`. -/
def append (s : State) (m : Message) (p : Point) : State :=
  { s with history := s.history ++ [m], nextId := s.nextId + 1, point := p }

def raiseError (s : State) (f : Failure) : State := { s with point := .errorMetric f }

/-- The end of a run, `finally` included. -/
def finish (s : State) (o : RunOutcome) : State :=
  { s with aborted := false, point := .idle (some o) }

/-- `_patch_and_checkpoint`, then the exception goes on. -/
def patchAndCheckpoint (s : State) (o : RunOutcome) : State :=
  let patched := patchOrphanToolCalls s.nextId s.history
  if patched.length = s.history.length then s.finish o
  else { s with history := patched, nextId := s.nextId + 1, point := .patchCheckpoint o }

def startCompaction (s : State) : State :=
  { s with definitions := s.tools, point := .compactOldest s.history.length }

/-- Append the texts drained at the head of an iteration, one a time. -/
def steer (s : State) : List String → State
  | [] => s.startCompaction
  | text :: rest => s.append (.user s.nextId text) (.steering rest)

/-- The head of the loop. -/
def nextIteration (cfg : Config) (s : State) : State :=
  if s.iteration < cfg.maxIterations then
    steer { s with iteration := s.iteration + 1, pending := [] } s.pending
  else s.raiseError .loopMaxIterations

/-- Append what the previous run left in the queue, then the new message. -/
def injectLeftover (s : State) (userMessage : String) : List String → State
  | [] => s.append (.user s.nextId userMessage) .userAppend
  | text :: rest => s.append (.user s.nextId text) (.leftover rest userMessage)

def ensureSystemMessage (cfg : Config) (s : State) : State :=
  if s.history = [] ∧ cfg.systemPrompt ≠ "" then
    { s with
      history := [{ id := s.nextId, role := .system, content := cfg.systemPrompt }]
      nextId := s.nextId + 1 }
  else s

/-- The start of a run. -/
def begin (cfg : Config) (s : State) (userMessage : String) : State :=
  let s := ensureSystemMessage cfg
    { s with
      aborted := false
      iteration := 0
      guard := {}
      recovery := { threshold := cfg.maxConsecutiveToolFailures } }
  injectLeftover { s with pending := [] } userMessage s.pending

def afterCompaction (cfg : Config) (s : State) : State :=
  match s.guard.promptForIteration cfg s.iteration with
  | (g, none) => { s with guard := g, point := .llm }
  | (g, some prompt) => { s with guard := g }.append (guardMessage s.nextId prompt) .guardAppend

/-- Sign what was approved and start the executions. -/
def startExecution (cfg : Config) (s : State) (t : Turn) : State :=
  match s.gate.forceSign cfg.sign t.approvals.approved with
  | none => s.raiseError .other
  | some (g, forced) =>
      { s with gate := g, point := .readBatch t (t.auth.signedCalls ++ forced) }

/-- `wait_tool_approvals`: after an abort the remaining calls are rejected at once. -/
def askUser (cfg : Config) (s : State) (t : Turn) : List ToolCall → State
  | [] => s.startExecution cfg t
  | call :: rest =>
      if s.aborted then
        askUser cfg s { t with approvals := waitOneApproval true none call t.approvals } rest
      else { s with point := .approval t call rest }

/-- `review_tool_approvals` gave these approvals. -/
def afterReview (cfg : Config) (s : State) (t : Turn) (a : Approvals) : State :=
  s.askUser cfg { t with approvals := { a with human := [] } } a.human

def startTurn (cfg : Config) (s : State) (calls : List ToolCall) : State :=
  let split := s.recovery.splitRepeated cfg.describe calls
  match s.gate.authorize cfg.sign s.tools split.1 with
  | none => s.raiseError .other
  | some (g, auth) =>
      let s := { s with gate := g }
      let t := { calls, skipped := split.2, auth }
      if auth.pendingApproval = [] then s.startExecution cfg t
      else if s.autoApproveTools then { s with point := .review t }
      else s.afterReview cfg t { human := auth.pendingApproval }

def afterAssistant (cfg : Config) (s : State) (assistant : Message) : State :=
  if assistant.toolCalls = [] then
    if s.pending ≠ [] then s.nextIteration cfg
    else { s with point := .finishMetric assistant }
  else s.startTurn cfg assistant.toolCalls

/-- Merge and annotate what came of the calls and append it. -/
def finishTurn (cfg : Config) (s : State) (t : Turn) (signed : List SignedToolCall)
    (readResults : List (Option ToolResult)) (writeResults : List ToolResult) : State :=
  match mergeResults readResults writeResults signed with
  | none => s.raiseError .other
  | some signedResults =>
      let callMap := fun id => t.calls.reverse.find? (·.id == id)
      let out := s.recovery.annotate cfg.describe callMap
        (t.skipped ++ t.auth.rejectedResults ++ t.approvals.results ++ signedResults)
      { s with recovery := out.1 }.append (.tool s.nextId out.2) .toolAppend

end State

/-! ## Steps -/

/-- What an awaited call gives back. -/
inductive Answer where
  | done
  /-- a path for each result that was moved to a file -/
  | compacted (paths : List String)
  /-- a summary if one was due, and whether the history is still too long -/
  | summarized (summary : Option Summary) (shouldCompact : Bool)
  | compactedAll (summary : Summary) (fallback : Bool)
  | responded (r : LLMResponse)
  | reviewed (results : List ReviewResult)
  | decided (decision : Option Bool)
  | executed (outcomes : List Outcome)
  | raised
  | cancelled
  deriving DecidableEq, Repr

/-- An exception at the `await`; compaction swallows it and goes on. -/
def interruptRaised (cfg : Config) (s : State) : Option State :=
  match s.point with
  | .idle _ => none
  | .compactOldest _ | .archive _ | .compact _ => some (s.afterCompaction cfg)
  | .errorMetric _ | .patchCheckpoint _ => some (s.finish (.raised .other))
  | _ => some (s.raiseError .other)

/-- A `CancelledError` at the `await`. -/
def interruptCancelled (s : State) : Option State :=
  match s.point with
  | .idle _ => none
  | .errorMetric _ | .patchCheckpoint _ => some (s.finish .cancelled)
  | _ => some (s.patchAndCheckpoint .cancelled)

/-- The awaited call gives its answer; the loop runs to its next `await`. -/
def resume (cfg : Config) (s : State) (answer : Answer) : Option State :=
  match s.point, answer with
  | _, .raised => interruptRaised cfg s
  | _, .cancelled => interruptCancelled s
  | .leftover rest userMessage, .done => some (s.injectLeftover userMessage rest)
  | .userAppend, .done => some { s with point := .runMetric }
  | .runMetric, .done => some (s.nextIteration cfg)
  | .steering rest, .done => some (s.steer rest)
  | .compactOldest snapshotLen, .compacted paths =>
      let readable := s.definitions.any (·.name == "read_history")
      let compacted := checkAndCompact cfg.archive readable paths s.history
      let messages := reattachConcurrentMessages compacted s.history snapshotLen
      some { s with history := messages, point := .archive messages.length }
  | .archive snapshotLen, .summarized summary shouldCompact =>
      let summarized := summarizeAndArchive s.nextId summary s.history
      let messages := reattachConcurrentMessages summarized s.history snapshotLen
      let s := { s with history := messages, nextId := s.nextId + 1 }
      if shouldCompact then some { s with point := .compact messages.length }
      else some (s.afterCompaction cfg)
  | .compact snapshotLen, .compactedAll summary fallback =>
      let compacted :=
        NeuralHub.AgentLoop.compact s.nextId summary fallback cfg.reserveRecentCount s.history
      let messages := reattachConcurrentMessages compacted s.history snapshotLen
      some ({ s with history := messages, nextId := s.nextId + 1 }.afterCompaction cfg)
  | .guardAppend, .done => some { s with point := .llm }
  | .llm, .responded r =>
      let assistant := assistantMessage s.nextId r
      some (s.append assistant (.assistantAppend assistant))
  | .assistantAppend assistant, .done => some (s.afterAssistant cfg assistant)
  | .finishMetric m, .done => some (s.finish (.returned m))
  | .review t, .reviewed results =>
      some (s.afterReview cfg t (reviewToolApprovals t.auth.pendingApproval results))
  | .approval t call rest, .decided decision =>
      some (s.askUser cfg
        { t with approvals := waitOneApproval false decision call t.approvals } rest)
  | .readBatch t signed, .executed outcomes =>
      let calls := (partitionBySideEffect signed s.definitions).1
      if outcomes.length = calls.length then
        let out := executeSignedBatch cfg.sign s.tools s.gate calls outcomes
        some { s with gate := out.1, point := .writeBatch t signed out.2 }
      else none
  | .writeBatch t signed readResults, .executed outcomes =>
      let calls := (partitionBySideEffect signed s.definitions).2
      if outcomes.length = calls.length then
        match executeSignedSerial cfg.sign s.tools s.gate calls outcomes with
        | (g, none) => some ({ s with gate := g }.patchAndCheckpoint .cancelled)
        | (g, some writeResults) =>
            some ({ s with gate := g }.finishTurn cfg t signed readResults writeResults)
      else none
  | .toolAppend, .done =>
      if s.aborted then some (s.raiseError .loopAborted) else some (s.nextIteration cfg)
  | .errorMetric f, .done => some (s.patchAndCheckpoint (.raised f))
  | .patchCheckpoint o, .done => some (s.finish o)
  | _, _ => none

inductive Action where
  | queueUserMessage (text : String)
  | abort
  /-- tools are registered or removed -/
  | setTools (tools : List ToolDefinition)
  | setAutoApprove (on : Bool)
  | run (userMessage : String)
  | resume (answer : Answer)
  deriving DecidableEq, Repr

def step (cfg : Config) (s : State) : Action → Option State
  | .queueUserMessage text => some { s with pending := push s.pending text }
  | .abort => some { s with aborted := true }
  | .setTools tools => some { s with tools }
  | .setAutoApprove on => some { s with autoApproveTools := on }
  | .run userMessage => if s.point.isIdle then some (s.begin cfg userMessage) else none
  | .resume answer => resume cfg s answer

/-- The loop over its runs. -/
def machine (cfg : Config) : Machine State Action := ⟨step cfg⟩

/-- The default limits, with the simplest texts and signatures. -/
def plainConfig : Config where
  archive := ⟨String.length, fun _ => false, fun _ => false, fun r => r.output⟩
  describe := ⟨fun c => c.name ++ c.arguments, fun c => c.name, id, id⟩
  sign c n := some (c.id ++ toString n)

end NeuralHub.AgentLoop
