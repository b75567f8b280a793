/-
NeuralHub.AgentLoop.Messages — messages, and histories whose tool calls
are answered.

A history is `paired` when every assistant message with tool calls is
directly followed by a tool message whose results carry exactly its call
ids, and every tool message follows such a message: the log of
`Lib.Pairing` whose requests are the assistant messages with calls and
whose answers are the tool messages. A provider rejects a history that is
not paired, so `patch_orphan_tool_calls` answers a last assistant message
that the loop left open.

The code reads `tool_calls` and `tool_results` through `or []` and `if
not`, so an absent list and an empty one are one value here. The
arguments of a call stand as their JSON text, and artifacts as their
paths. A message's time stamp and provider metadata and a result's diffs
are left out: nothing that is modelled reads them.
-/
import NeuralHub.Lib.Pairing
import NeuralHub.Lib.Text

namespace NeuralHub.AgentLoop

open NeuralHub.Lib

inductive Role where
  | user | assistant | system | tool
  deriving DecidableEq, Repr

inductive MessageKind where
  | userRequest | summary | runtimeGuard | runtimeContext | skillContext | memoryContext
  deriving DecidableEq, Repr

structure ToolCall where
  id : String
  name : String
  arguments : String
  deriving DecidableEq, Repr

structure ToolResult where
  toolCallId : String
  output : String
  isError : Bool := false
  artifacts : List String := []
  deriving DecidableEq, Repr

structure Message where
  id : Nat
  role : Role
  content : String
  kind : MessageKind := .userRequest
  ephemeral : Bool := false
  toolCalls : List ToolCall := []
  toolResults : List ToolResult := []
  deriving DecidableEq, Repr

/-- The ids that the results of a list carry. -/
def resultIds (results : List ToolResult) : List String := results.map (·.toolCallId)

def callIds (calls : List ToolCall) : List String := calls.map (·.id)

@[simp] theorem resultIds_nil : resultIds [] = [] := rfl

@[simp] theorem resultIds_append (xs ys : List ToolResult) :
    resultIds (xs ++ ys) = resultIds xs ++ resultIds ys := List.map_append

@[simp] theorem callIds_nil : callIds [] = [] := rfl

@[simp] theorem callIds_append (xs ys : List ToolCall) :
    callIds (xs ++ ys) = callIds xs ++ callIds ys := List.map_append

/-! ## Messages the loop makes -/

def Message.user (id : Nat) (content : String) : Message := { id, role := .user, content }

def Message.tool (id : Nat) (results : List ToolResult) : Message :=
  { id, role := .tool, content := "", toolResults := results }

/-- An assistant message with tool calls. -/
def Message.calling (m : Message) : Bool := m.role == .assistant && !m.toolCalls.isEmpty

def Message.isTool (m : Message) : Bool := m.role == .tool

/-- The results of `t` carry exactly the ids of the calls of `m`. -/
def Message.answers (m t : Message) : Prop :=
  (resultIds t.toolResults).Perm (callIds m.toolCalls)

theorem Message.calling_iff {m : Message} :
    m.calling = true ↔ m.role = .assistant ∧ m.toolCalls ≠ [] := by
  simp [Message.calling]

@[simp] theorem Message.calling_user (id : Nat) (content : String) :
    (Message.user id content).calling = false := rfl

@[simp] theorem Message.isTool_user (id : Nat) (content : String) :
    (Message.user id content).isTool = false := rfl

@[simp] theorem Message.isTool_tool (id : Nat) (results : List ToolResult) :
    (Message.tool id results).isTool = true := rfl

/-- Tool calls and tool results of a history. -/
def toolPairing : Pairing Message where
  opens := Message.calling
  closes := Message.isTool
  answers := Message.answers
  disjoint m h := by
    rw [Message.calling_iff] at h
    simp [Message.isTool, h.1]

/-- Every assistant message with tool calls is directly followed by a tool
message with exactly its call ids, and there is no other tool message. -/
def HistoryPaired (history : List Message) : Prop := toolPairing.Paired history

/-- Paired but for a last assistant message whose calls are these. -/
def AwaitsResults (calls : List ToolCall) (history : List Message) : Prop :=
  calls ≠ [] ∧ ∃ pre m, history = pre ++ [m] ∧ HistoryPaired pre ∧ m.role = .assistant ∧
    m.toolCalls = calls

theorem AwaitsResults.pending {calls : List ToolCall} {history : List Message}
    (h : AwaitsResults calls history) : toolPairing.Pending history := by
  obtain ⟨hne, pre, m, rfl, hpre, hrole, rfl⟩ := h
  exact ⟨pre, m, rfl, Message.calling_iff.mpr ⟨hrole, hne⟩, hpre⟩

theorem AwaitsResults.answered {calls : List ToolCall} {history : List Message} {t : Message}
    (h : AwaitsResults calls history) (ht : t.role = .tool)
    (hids : (resultIds t.toolResults).Perm (callIds calls)) : HistoryPaired (history ++ [t]) := by
  obtain ⟨hne, pre, m, rfl, hpre, hrole, rfl⟩ := h
  have hopen : toolPairing.opens m = true := Message.calling_iff.mpr ⟨hrole, hne⟩
  have hclose : toolPairing.closes t = true := by simp [toolPairing, Message.isTool, ht]
  exact hpre.answer hopen hclose hids

theorem HistoryPaired.snoc {history : List Message} {m : Message} (h : HistoryPaired history)
    (hcall : m.calling = false) (htool : m.isTool = false) : HistoryPaired (history ++ [m]) :=
  Pairing.Paired.snoc h hcall htool

theorem HistoryPaired.awaits {history : List Message} {m : Message} (h : HistoryPaired history)
    (hrole : m.role = .assistant) (hcalls : m.toolCalls ≠ []) :
    AwaitsResults m.toolCalls (history ++ [m]) :=
  ⟨hcalls, history, m, rfl, h, hrole, rfl⟩

/-! ## `agent_loop_orphan` -/

def buildOrphanToolResults (m : Message) : List ToolResult :=
  m.toolCalls.map fun call =>
    { toolCallId := call.id
      output := "[error] tool execution failed, no response captured"
      isError := true }

/-- `patch_orphan_tool_calls`; `id` is the id of the message it may add. -/
def patchOrphanToolCalls (id : Nat) (messages : List Message) : List Message :=
  match messages.getLast? with
  | none => messages
  | some last =>
      if last.role ≠ .assistant ∨ last.toolCalls = [] then messages
      else messages ++ [.tool id (buildOrphanToolResults last)]

@[simp] theorem resultIds_buildOrphanToolResults (m : Message) :
    resultIds (buildOrphanToolResults m) = callIds m.toolCalls := by
  simp [resultIds, buildOrphanToolResults, callIds]

theorem patchOrphanToolCalls_of_pending {id : Nat} {messages : List Message}
    (h : toolPairing.Pending messages) : HistoryPaired (patchOrphanToolCalls id messages) := by
  obtain ⟨pre, m, rfl, hopen, hpre⟩ := h
  obtain ⟨hrole, hcalls⟩ := Message.calling_iff.mp hopen
  have hpatch : patchOrphanToolCalls id (pre ++ [m]) =
      (pre ++ [m]) ++ [.tool id (buildOrphanToolResults m)] := by
    simp [patchOrphanToolCalls, hrole, hcalls]
  rw [hpatch]
  have hids : (resultIds (buildOrphanToolResults m)).Perm (callIds m.toolCalls) := by
    rw [resultIds_buildOrphanToolResults]
  exact Pairing.Paired.answer hpre hopen rfl hids

theorem patchOrphanToolCalls_of_paired {id : Nat} {messages : List Message}
    (h : HistoryPaired messages) : patchOrphanToolCalls id messages = messages := by
  obtain rfl | ⟨pre, m, rfl⟩ := messages.eq_nil_or_concat
  · rfl
  · rw [List.concat_eq_append] at h ⊢
    have hno : m.calling = false := Pairing.Paired.last_not_opens h
    simp only [patchOrphanToolCalls, List.getLast?_append, List.getLast?_singleton]
    rw [Bool.eq_false_iff, ne_eq, Message.calling_iff, not_and_or, not_not] at hno
    simp only [Option.some_or, if_pos hno]

/-- What the repair at the end of a run can mend, it mends. -/
theorem historyPaired_patchOrphanToolCalls {id : Nat} {messages : List Message}
    (h : HistoryPaired messages ∨ toolPairing.Pending messages) :
    HistoryPaired (patchOrphanToolCalls id messages) := by
  rcases h with h | h
  · rw [patchOrphanToolCalls_of_paired h]
    exact h
  · exact patchOrphanToolCalls_of_pending h

end NeuralHub.AgentLoop
