/-
NeuralHub.AgentLoop.ToolPhase — from the calls of one response to the
results of one tool message.

A call ends in one of five places: skipped because it failed too often
(`splitRepeated`), rejected by the security gate (`authorize`), rejected
or not approved by the review and the user (`reviewToolApprovals`,
`waitOneApproval`), or signed and executed, side-effect-free calls as a
batch and the others one after the other. `mergeResults` collects what
was executed, `annotate` adds hints to repeated failures.

What lies outside these functions is a parameter or an argument: the
signature of the gate and its failure (`json.dumps` of odd arguments),
the texts of the failure tracker that are cut out with regular
expressions, the answers of reviewer and user, and the outcome of every
execution. The time stamp of a signed call is left out; it is signed and
verified together with the sequence number.
-/
import NeuralHub.AgentLoop.Messages
import Mathlib.Data.List.Sort

namespace NeuralHub.AgentLoop

open NeuralHub.Lib

/-! ## `failure_recovery` -/

structure ToolFailureState where
  signature : String
  callSummary : String
  count : Nat := 0
  lastFingerprint : String := ""
  recentErrors : List String := []
  deriving DecidableEq, Repr

/-- `_signature`, `_call_summary`, `_error_kind` and `_error_summary`. -/
structure Describe where
  signature : ToolCall → String
  callSummary : ToolCall → String
  errorKind : String → String
  errorSummary : String → String

structure ToolFailureRecoveryTracker where
  threshold : Int
  consecutiveFailures : Nat := 0
  states : List ToolFailureState := []
  recentFingerprints : List String := []
  deriving DecidableEq, Repr

def recoveryContextHeader : String := "[失败恢复提示]"

def repeatedFailureHeader : String := "[重复失败拦截]"

def joinLines (lines : List String) : String := "\n".intercalate lines

def buildRepeatedFailureOutput (state : ToolFailureState) : String :=
  joinLines
    [repeatedFailureHeader,
      "该工具调用与最近失败指纹相同，已跳过真实执行。",
      "失败指纹: " ++ state.lastFingerprint,
      "调用摘要: " ++ state.callSummary,
      "这条路径已被判定为重复失败，继续尝试不会带来新信息。",
      "请换工具、换参数，或先解释失败原因后再继续。"]

/-- The last `n` of a list, `xs[-n:]`. -/
def lastN {α : Type} (n : Nat) (xs : List α) : List α := xs.drop (xs.length - n)

def appendRecoveryContext (r : ToolResult) (state : ToolFailureState)
    (recentFingerprints : List String) : ToolResult :=
  let context := joinLines
    ["", recoveryContextHeader,
      "相同调用失败次数: " ++ toString state.count,
      "失败指纹: " ++ state.lastFingerprint,
      "调用摘要: " ++ state.callSummary,
      "不要再次用相同工具和相同参数重试。",
      "这可能已经进入死胡同：先反思根因，再决定是否继续。",
      "请先分析失败原因，然后换策略：读取上下文、缩小范围、换工具、改参数，或询问用户。",
      "最近失败指纹: " ++ ", ".intercalate (lastN 3 recentFingerprints)]
  { r with output := String.ofList (Text.rstrip r.output.toList) ++ context }

namespace ToolFailureRecoveryTracker

def find (t : ToolFailureRecoveryTracker) (signature : String) : Option ToolFailureState :=
  t.states.find? (·.signature == signature)

/-- The calls that may run, and the results of those that may not. -/
def splitRepeated (env : Describe) (t : ToolFailureRecoveryTracker) :
    List ToolCall → List ToolCall × List ToolResult
  | [] => ([], [])
  | call :: calls =>
      let out := splitRepeated env t calls
      match t.find (env.signature call) with
      | none => (call :: out.1, out.2)
      | some state =>
          if t.threshold ≤ 0 ∨ (state.count : Int) < t.threshold then (call :: out.1, out.2)
          else
            (out.1,
              { toolCallId := call.id, output := buildRepeatedFailureOutput state
                isError := true } :: out.2)

def recordSuccess (env : Describe) (t : ToolFailureRecoveryTracker) (call : ToolCall) :
    ToolFailureRecoveryTracker :=
  { t with
    consecutiveFailures := 0
    states := t.states.filter (·.signature != env.signature call) }

def recordFailure (env : Describe) (t : ToolFailureRecoveryTracker) (call : ToolCall)
    (r : ToolResult) : ToolFailureRecoveryTracker × ToolFailureState :=
  let signature := env.signature call
  let old := (t.find signature).getD { signature, callSummary := env.callSummary call }
  let fingerprint := signature ++ ":" ++ env.errorKind r.output
  let state :=
    { old with
      count := old.count + 1
      lastFingerprint := fingerprint
      recentErrors := lastN 2 old.recentErrors ++ [env.errorSummary r.output] }
  ({ t with
      consecutiveFailures := t.consecutiveFailures + 1
      states := t.states.filter (·.signature != signature) ++ [state]
      recentFingerprints := lastN 4 t.recentFingerprints ++ [fingerprint] }, state)

def shouldAddContext (t : ToolFailureRecoveryTracker) (state : ToolFailureState) : Bool :=
  t.threshold ≤ state.count || t.threshold ≤ t.consecutiveFailures

/-- One pass of the loop of `annotate`. -/
def annotateOne (env : Describe) (callMap : String → Option ToolCall)
    (t : ToolFailureRecoveryTracker) (r : ToolResult) : ToolFailureRecoveryTracker × ToolResult :=
  match callMap r.toolCallId with
  | none => (t, r)
  | some call =>
      if !r.isError then (t.recordSuccess env call, r)
      else if repeatedFailureHeader.toList.isPrefixOf r.output.toList then (t, r)
      else
        let (t, state) := t.recordFailure env call r
        if t.shouldAddContext state then
          (t, appendRecoveryContext r state t.recentFingerprints)
        else (t, r)

def annotateFrom (env : Describe) (callMap : String → Option ToolCall) :
    ToolFailureRecoveryTracker → List ToolResult → ToolFailureRecoveryTracker × List ToolResult
  | t, [] => (t, [])
  | t, r :: rest =>
      let (t, r) := t.annotateOne env callMap r
      let (t, rest) := annotateFrom env callMap t rest
      (t, r :: rest)

def annotate (env : Describe) (callMap : String → Option ToolCall)
    (t : ToolFailureRecoveryTracker) (results : List ToolResult) :
    ToolFailureRecoveryTracker × List ToolResult :=
  if t.threshold ≤ 0 then (t, results) else annotateFrom env callMap t results

end ToolFailureRecoveryTracker

/-! ## `security_gate` -/

structure ToolDefinition where
  name : String
  requiresApproval : Bool := false
  sideEffect : Bool := true
  deriving DecidableEq, Repr

structure SecurityPolicy where
  allowedTools : List String := []
  maxCallsPerTurn : Nat := 10
  deriving DecidableEq, Repr

structure SignedToolCall where
  toolCall : ToolCall
  sequence : Nat
  signature : String
  deriving DecidableEq, Repr

/-- `_sign`: `none` when the arguments cannot be written as JSON bytes. -/
abbrev Sign := ToolCall → Nat → Option String

structure SecurityGate where
  policy : SecurityPolicy
  sequence : Nat := 0
  verifiedSequences : List Nat := []
  deriving DecidableEq, Repr

structure AuthorizeResult where
  signedCalls : List SignedToolCall := []
  rejectedResults : List ToolResult := []
  pendingApproval : List ToolCall := []
  deriving DecidableEq, Repr

def getTool (tools : List ToolDefinition) (name : String) : Option ToolDefinition :=
  tools.find? (·.name == name)

namespace SecurityGate

/-- `_reject_reason`; the empty text lets the call pass. -/
def rejectReason (g : SecurityGate) (tools : List ToolDefinition) (call : ToolCall)
    (signedCount : Nat) : String :=
  match getTool tools call.name with
  | none => "unknown tool: " ++ call.name
  | some tool =>
      if g.policy.allowedTools ≠ [] ∧ call.name ∉ g.policy.allowedTools then
        "tool not allowed: " ++ call.name
      else if g.policy.maxCallsPerTurn ≤ signedCount then
        "max calls per turn exceeded: " ++ toString g.policy.maxCallsPerTurn
      else if tool.requiresApproval then "requires_approval:" ++ call.name
      else ""

def rejectedResult (call : ToolCall) (reason : String) : ToolResult :=
  { toolCallId := call.id, output := "SecurityGate rejected: " ++ reason, isError := true }

/-- The next sequence number, and a call signed with it. -/
def signNext (sign : Sign) (g : SecurityGate) (call : ToolCall) :
    Option (SecurityGate × SignedToolCall) :=
  let sequence := g.sequence + 1
  (sign call sequence).map fun signature =>
    ({ g with sequence }, { toolCall := call, sequence, signature })

/-- The loop of `authorize`; `none` is `SECURITY_AUTHORIZE_FAILED`. -/
def authorizeFrom (sign : Sign) (tools : List ToolDefinition) :
    SecurityGate → AuthorizeResult → List ToolCall → Option (SecurityGate × AuthorizeResult)
  | g, acc, [] => some (g, acc)
  | g, acc, call :: calls =>
      let reason := g.rejectReason tools call acc.signedCalls.length
      if "requires_approval:".toList.isPrefixOf reason.toList then
        authorizeFrom sign tools g
          { acc with pendingApproval := acc.pendingApproval ++ [call] } calls
      else if reason ≠ "" then
        authorizeFrom sign tools g
          { acc with rejectedResults := acc.rejectedResults ++ [rejectedResult call reason] } calls
      else
        (g.signNext sign call).bind fun (g, signed) =>
          authorizeFrom sign tools g
            { acc with signedCalls := acc.signedCalls ++ [signed] } calls

def authorize (sign : Sign) (tools : List ToolDefinition) (g : SecurityGate)
    (calls : List ToolCall) : Option (SecurityGate × AuthorizeResult) :=
  authorizeFrom sign tools g {} calls

/-- `force_sign`; `none` is `SECURITY_FORCE_SIGN_FAILED`. -/
def forceSign (sign : Sign) : SecurityGate → List ToolCall →
    Option (SecurityGate × List SignedToolCall)
  | g, [] => some (g, [])
  | g, call :: calls =>
      (g.signNext sign call).bind fun (g, signed) =>
        (forceSign sign g calls).map fun (g, rest) => (g, signed :: rest)

def verify (sign : Sign) (g : SecurityGate) (c : SignedToolCall) : SecurityGate × Bool :=
  if sign c.toolCall c.sequence = some c.signature ∧ c.sequence ∉ g.verifiedSequences then
    ({ g with verifiedSequences := c.sequence :: g.verifiedSequences }, true)
  else (g, false)

end SecurityGate

/-! ## `tool_review` and `agent_loop_approval` -/

inductive ReviewDecision where
  | autoApprove | requireHuman | autoReject
  deriving DecidableEq, Repr

structure ReviewResult where
  decision : ReviewDecision := .requireHuman
  reason : String := "审核结果无法确认，需人工确认。"
  deriving DecidableEq, Repr

/-- The end of `_parse_review_results`: exactly one review for each call. -/
def padReviews (expectedCount : Nat) (results : List ReviewResult) : List ReviewResult :=
  (results ++ List.replicate (expectedCount - results.length) ({} : ReviewResult)).take expectedCount

def reviewToolCalls (calls : List ToolCall) (results : List ReviewResult) :
    List (ToolCall × ReviewResult) :=
  calls.zip (padReviews calls.length results)

def approvalResult (call : ToolCall) (reason : String) : ToolResult :=
  { toolCallId := call.id, output := reason, isError := true }

/-- Calls approved and rejected by the review, and calls for the user. -/
structure Approvals where
  approved : List ToolCall := []
  results : List ToolResult := []
  human : List ToolCall := []
  deriving DecidableEq, Repr

/-- One reviewed call in `review_tool_approvals`. -/
def Approvals.add (a : Approvals) (reviewed : ToolCall × ReviewResult) : Approvals :=
  match reviewed.2.decision with
  | .autoApprove => { a with approved := a.approved ++ [reviewed.1] }
  | .autoReject =>
      { a with
        results := a.results ++ [approvalResult reviewed.1 ("自动拒绝：" ++ reviewed.2.reason)] }
  | .requireHuman => { a with human := a.human ++ [reviewed.1] }

/-- `review_tool_approvals` of a user who lets a model review. -/
def reviewToolApprovals (calls : List ToolCall) (results : List ReviewResult) : Approvals :=
  (reviewToolCalls calls results).foldl Approvals.add {}

/-- `_wait_one_approval`: `decision` is what the waiting call finds in
`_tool_approval_decisions`, which is nothing when an abort woke it. -/
def waitOneApproval (aborted : Bool) (decision : Option Bool) (call : ToolCall) (a : Approvals) :
    Approvals :=
  if aborted then { a with results := a.results ++ [approvalResult call "工具调用已取消。"] }
  else if decision = some true then { a with approved := a.approved ++ [call] }
  else { a with results := a.results ++ [approvalResult call "工具调用未获得人工审批。"] }

/-! ## `executor` -/

/-- How one execution ends: a result of the tool, an exception of the
tool, an exception of the handler that logs one, a cancellation. -/
inductive Outcome where
  | returned (r : ToolResult)
  | raised (message : String)
  | escaped (message : String)
  | cancelled
  deriving DecidableEq, Repr

def maxToolOutputChars : Nat := 12000

def aggregateToolOutputChars : Nat := 48000

def aggregateToolNames : List String := ["spawn_agent", "orchestrate_agents", "dispatch_agent"]

def maxOutputChars (toolName : String) : Nat :=
  if toolName ∈ aggregateToolNames then aggregateToolOutputChars else maxToolOutputChars

def truncateOutput (toolName output : String) : String :=
  let maxChars := maxOutputChars toolName
  let chars := output.toList
  if chars.length ≤ maxChars then output
  else
    let head := chars.take (maxChars / 2)
    let tail := lastN (maxChars - maxChars / 2) chars
    String.ofList head ++ "\n...[truncated " ++ toString (chars.length - maxChars) ++
      " characters]...\n" ++ String.ofList tail

def finalizeResult (call : ToolCall) (r : ToolResult) : ToolResult :=
  { r with toolCallId := call.id, output := truncateOutput call.name r.output }

def errorResult (call : ToolCall) (output : String) : ToolResult :=
  finalizeResult call { toolCallId := call.id, output, isError := true }

/-- `execute` with what its callers make of an exception; `none` is a
`CancelledError`, which is not an `Exception`. -/
def execute (tools : List ToolDefinition) (call : ToolCall) (outcome : Outcome) :
    Option ToolResult :=
  match getTool tools call.name, outcome with
  | none, _ => some (errorResult call ("Unknown tool: " ++ call.name))
  | some _, .returned r => some (finalizeResult call r)
  | some _, .raised message => some (errorResult call message)
  | some _, .escaped message => some (errorResult call message)
  | some _, .cancelled => none

/-- `execute_signed`, and the same for one call of a batch. -/
def executeSigned (sign : Sign) (tools : List ToolDefinition) (g : SecurityGate)
    (c : SignedToolCall) (outcome : Outcome) : SecurityGate × Option ToolResult :=
  match g.verify sign c with
  | (g, false) => (g, some (errorResult c.toolCall "HMAC verification failed"))
  | (g, true) => (g, execute tools c.toolCall outcome)

/-- Execute in the given order. In a batch all calls are verified before
any runs; the runs do not touch the gate. -/
def executeEach (sign : Sign) (tools : List ToolDefinition) :
    SecurityGate → List ((SignedToolCall × Nat) × Outcome) →
      SecurityGate × List (Nat × Option ToolResult)
  | g, [] => (g, [])
  | g, ((c, index), outcome) :: rest =>
      let (g, r) := executeSigned sign tools g c outcome
      let (g, out) := executeEach sign tools g rest
      (g, (index, r) :: out)

/-- Calls with their positions, by sequence number. -/
def bySequence (calls : List SignedToolCall) : List (SignedToolCall × Nat) :=
  calls.zipIdx.insertionSort (fun a b => a.1.sequence ≤ b.1.sequence)

/-- `execute_signed_batch`: `gather` with `return_exceptions` lets every
call finish; an entry `none` is a `CancelledError` among the results. -/
def executeSignedBatch (sign : Sign) (tools : List ToolDefinition) (g : SecurityGate)
    (calls : List SignedToolCall) (outcomes : List Outcome) :
    SecurityGate × List (Option ToolResult) :=
  let (g, ordered) := executeEach sign tools g ((bySequence calls).zip outcomes)
  (g, (List.range calls.length).filterMap fun index => ordered.lookup index)

/-- `execute_signed_serial`; `none` when one call was cancelled. -/
def executeSerially (sign : Sign) (tools : List ToolDefinition) :
    SecurityGate → List (SignedToolCall × Outcome) → SecurityGate × Option (List ToolResult)
  | g, [] => (g, some [])
  | g, (c, outcome) :: rest =>
      match executeSigned sign tools g c outcome with
      | (g, none) => (g, none)
      | (g, some r) =>
          let (g, out) := executeSerially sign tools g rest
          (g, out.map (r :: ·))

def executeSignedSerial (sign : Sign) (tools : List ToolDefinition) (g : SecurityGate)
    (calls : List SignedToolCall) (outcomes : List Outcome) :
    SecurityGate × Option (List ToolResult) :=
  executeSerially sign tools g
    ((calls.insertionSort (fun a b => a.sequence ≤ b.sequence)).zip outcomes)

/-! ## `tool_batching` -/

/-- The last definition of a name, as in the dictionary `by_name`. -/
def definitionByName (tools : List ToolDefinition) (name : String) : Option ToolDefinition :=
  tools.reverse.find? (·.name == name)

def isReadOnly (tools : List ToolDefinition) (c : SignedToolCall) : Bool :=
  match definitionByName tools c.toolCall.name with
  | none => false
  | some definition => !definition.sideEffect

/-- Side-effect-free calls and the others. -/
def partitionBySideEffect (calls : List SignedToolCall) (tools : List ToolDefinition) :
    List SignedToolCall × List SignedToolCall :=
  calls.partition (isReadOnly tools)

/-- The last result for the id, as in the dictionary `by_call_id`. -/
def resultById (results : List ToolResult) (id : String) : Option ToolResult :=
  results.reverse.find? (·.toolCallId == id)

/-- `merge_results`; `none` is the `AttributeError` of a read result that
is an exception. -/
def mergeResults (readResults : List (Option ToolResult)) (writeResults : List ToolResult)
    (calls : List SignedToolCall) : Option (List ToolResult) :=
  if readResults.all (·.isSome) then
    some (calls.filterMap fun c =>
      resultById (readResults.filterMap id ++ writeResults) c.toolCall.id)
  else none

end NeuralHub.AgentLoop
