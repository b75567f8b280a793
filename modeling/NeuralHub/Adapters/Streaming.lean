/-
NeuralHub.Adapters.Streaming — a streamed response put together again:
`streaming.py` and `merge_usage`.

An adapter turns what a provider sends into chunks, and
`complete_with_stream` gathers them: texts and thoughts are joined, tool
calls and thinking blocks collected, and of each token count the last one
that is not zero counts. What is gathered of each kind depends on the
chunks of that kind alone, in their order (`gather_append`).

`json.loads` and `str` of a value that is neither a string nor `None` are
parameters. The id of a response is left out, it is new for a streamed one.
-/
import NeuralHub.Lib.JsonLayout
import NeuralHub.Lib.Text
import NeuralHub.Plan.PlanResponse

namespace NeuralHub.Adapters

open NeuralHub.Lib
open NeuralHub.Plan (truthy)

/-! ## Responses -/

/-- What is taken from Python and not computed here. -/
structure Python where
  /-- `json.loads`; `none` is a `JSONDecodeError` -/
  loads : List Char → Option Json
  /-- `str` of a number, a truth value, a list or a dictionary -/
  strOther : Json → String

def Python.str (py : Python) : Json → String
  | .str s => s
  | .null => "None"
  | value => py.strOther value

structure ToolCall where
  id : String
  name : String
  arguments : Members
  deriving DecidableEq, Repr

structure LLMUsage where
  promptTokens : Int := 0
  completionTokens : Int := 0
  cachedPromptTokens : Int := 0
  cacheCreationPromptTokens : Int := 0
  deriving DecidableEq, Repr

structure LLMResponse where
  content : String
  toolCalls : List ToolCall := []
  usage : LLMUsage := {}
  providerMetadata : Members := .nil
  deriving DecidableEq, Repr

def LLMResponse.reasoning (r : LLMResponse) : Option Json :=
  r.providerMetadata.get? "reasoning_content"

/-- `provider_metadata.get("thinking_blocks", [])`. -/
def LLMResponse.thinkingBlocks (r : LLMResponse) : Json :=
  (r.providerMetadata.get? "thinking_blocks").getD (.arr .nil)

/-- A count that a usage chunk does not have is zero. -/
inductive StreamChunk
  | text (data : Json)
  | reasoning (data : Json)
  | toolCall (id name arguments : Json)
  | usage (data : LLMUsage)
  | done
  deriving DecidableEq, Repr

/-- `merge_usage`. -/
def mergeUsage (acc data : LLMUsage) : LLMUsage where
  promptTokens := if data.promptTokens ≠ 0 then data.promptTokens else acc.promptTokens
  completionTokens :=
    if data.completionTokens ≠ 0 then data.completionTokens else acc.completionTokens
  cachedPromptTokens :=
    if data.cachedPromptTokens ≠ 0 then data.cachedPromptTokens else acc.cachedPromptTokens
  cacheCreationPromptTokens :=
    if data.cacheCreationPromptTokens ≠ 0 then data.cacheCreationPromptTokens
    else acc.cacheCreationPromptTokens

/-! ## Reading values -/

/-- `data.get(key, default)`. -/
def member (data : Members) (key : String) (default : Json) : Json :=
  (data.get? key).getD default

/-- What has `get`. -/
def dict? : Json → Option Members
  | .obj members => some members
  | _ => none

def list? : Json → Option (List Json)
  | .arr items => some items.toList
  | _ => none

/-- `int(value)` where it is one, and the truth values that are. -/
def int? : Json → Option Int
  | .int n => some n
  | .bool b => some (if b then 1 else 0)
  | _ => none

def str? : Json → Option String
  | .str s => some s
  | _ => none

/-- `int(value or 0)`. -/
def intOr (value : Json) : Option Int := if truthy value then int? value else some 0

/-- `value or ""`. -/
def textOr (value : Json) : Option String := if truthy value then str? value else some ""

/-- `int(usage.get(key, 0) or 0)`. -/
def countOr (usage : Members) (key : String) : Option Int := intOr (member usage key (.int 0))

@[simp] theorem intOr_int (n : Int) : intOr (.int n) = some n := by
  by_cases hn : n = 0
  · subst hn
    rfl
  · simp [intOr, truthy, hn, int?]

theorem countOr_of_get? {usage : Members} {key : String} {n : Option Int}
    (h : usage.get? key = n.map Json.int) : countOr usage key = some (n.getD 0) := by
  rw [countOr, member, h]
  cases n with
  | none => rfl
  | some n => exact intOr_int n

/-! ## `streaming` -/

def asRecord : Json → Members
  | .obj members => members
  | _ => .nil

/-- `str(value or "")`. -/
def Python.textOf (py : Python) (value : Json) : String :=
  if truthy value then py.str value else ""

def stripped (s : String) : String := String.ofList (Text.strip s.toList)

/-- `_tool_call`. -/
def toolCall (py : Python) (id name arguments : Json) : Option ToolCall :=
  let name := stripped (py.str name)
  if name = "" then none else some { id := py.str id, name, arguments := asRecord arguments }

/-- A list of objects. -/
def objects : List Members → Items
  | [] => .nil
  | block :: rest => .cons (.obj block) (objects rest)

/-- `_metadata`. -/
def metadata (py : Python) (reasoning : String) (thinkingBlocks : List Members) : Members :=
  let blocks :=
    if thinkingBlocks ≠ [] then thinkingBlocks
    else if reasoning ≠ "" then
      [.cons "type" (.str "thinking") (.cons "thinking" (.str reasoning) .nil)]
    else []
  let text :=
    if reasoning ≠ "" then reasoning
    else String.join (thinkingBlocks.map fun block => py.str (member block "thinking" (.str "")))
  let rest : Members :=
    if blocks ≠ [] then .cons "thinking_blocks" (.arr (objects blocks)) .nil else .nil
  if text ≠ "" then .cons "reasoning_content" (.str text) (.cons "thinking" (.str text) rest)
  else rest

/-- The lists that `complete_with_stream` fills. -/
structure Gathered where
  content : String := ""
  reasoning : String := ""
  thinkingBlocks : List Members := []
  toolCalls : List ToolCall := []
  usage : LLMUsage := {}
  deriving DecidableEq, Repr

def Gathered.add (py : Python) (g : Gathered) : StreamChunk → Gathered
  | .text data => { g with content := g.content ++ py.textOf data }
  | .reasoning (.obj block) => { g with thinkingBlocks := g.thinkingBlocks ++ [block] }
  | .reasoning data => { g with reasoning := g.reasoning ++ py.textOf data }
  | .toolCall id name arguments =>
    { g with toolCalls := g.toolCalls ++ (toolCall py id name arguments).toList }
  | .usage data => { g with usage := mergeUsage g.usage data }
  | .done => g

def gather (py : Python) (chunks : List StreamChunk) : Gathered := chunks.foldl (Gathered.add py) {}

/-- `complete_with_stream`; `none` stands for the plain completion that is
asked for when nothing came. -/
def completeWithStream (py : Python) (chunks : List StreamChunk) : Option LLMResponse :=
  if chunks = [] then none
  else
    let g := gather py chunks
    some {
      content := g.content
      toolCalls := g.toolCalls
      usage := g.usage
      providerMetadata := metadata py g.reasoning g.thinkingBlocks }

/-! ## What is gathered -/

variable {py : Python}

/-- What was gathered first stands in front. -/
def Gathered.append (g h : Gathered) : Gathered where
  content := g.content ++ h.content
  reasoning := g.reasoning ++ h.reasoning
  thinkingBlocks := g.thinkingBlocks ++ h.thinkingBlocks
  toolCalls := g.toolCalls ++ h.toolCalls
  usage := mergeUsage g.usage h.usage

@[simp] theorem mergeUsage_zero (u : LLMUsage) : mergeUsage u {} = u := by
  simp [mergeUsage]

@[simp] theorem zero_mergeUsage (u : LLMUsage) : mergeUsage {} u = u := by
  obtain ⟨p, c, k, n⟩ := u
  simp only [mergeUsage, LLMUsage.mk.injEq]
  refine ⟨?_, ?_, ?_, ?_⟩ <;> split <;> simp_all

theorem mergeUsage_assoc (u v w : LLMUsage) :
    mergeUsage (mergeUsage u v) w = mergeUsage u (mergeUsage v w) := by
  simp only [mergeUsage, LLMUsage.mk.injEq]
  refine ⟨?_, ?_, ?_, ?_⟩ <;> split_ifs <;> simp_all

@[simp] theorem Gathered.append_empty (g : Gathered) : g.append {} = g := by
  simp [append]

@[simp] theorem Gathered.empty_append (g : Gathered) : append {} g = g := by
  simp [append]

theorem Gathered.append_assoc (g h k : Gathered) :
    (g.append h).append k = g.append (h.append k) := by
  simp [append, String.append_assoc, mergeUsage_assoc]

theorem Gathered.add_append (g h : Gathered) (chunk : StreamChunk) :
    (g.append h).add py chunk = g.append (h.add py chunk) := by
  cases chunk with
  | text data => simp [add, append, String.append_assoc]
  | reasoning data => cases data <;> simp [add, append, String.append_assoc]
  | toolCall id name arguments => simp [add, append]
  | usage data => simp [add, append, mergeUsage_assoc]
  | done => rfl

/-- **What is gathered from two streams, one behind the other.** -/
theorem gather_append (xs ys : List StreamChunk) :
    gather py (xs ++ ys) = (gather py xs).append (gather py ys) := by
  have hfold : ∀ (g h : Gathered) (chunks : List StreamChunk),
      chunks.foldl (Gathered.add py) (g.append h) =
        g.append (chunks.foldl (Gathered.add py) h) := by
    intro g h chunks
    induction chunks generalizing h with
    | nil => rfl
    | cons chunk chunks ih => rw [List.foldl_cons, List.foldl_cons, Gathered.add_append, ih]
  rw [gather, List.foldl_append]
  conv_lhs => rw [← Gathered.append_empty (xs.foldl (Gathered.add py) {})]
  exact hfold _ _ ys

theorem gather_nil : gather py [] = {} := rfl

theorem gather_cons (chunk : StreamChunk) (chunks : List StreamChunk) :
    gather py (chunk :: chunks) = (Gathered.add py {} chunk).append (gather py chunks) :=
  gather_append [chunk] chunks

/-! ## Lines with JSON -/

def jsonPython : Python := ⟨loads, fun _ => ""⟩

theorem loads_jsonPython {data : Members} (h : (Json.obj data).valid = true) :
    jsonPython.loads (Json.obj data).text = some (.obj data) := loads_text h

def dictionary (members : List (String × Json)) : Json :=
  .obj (members.foldr (fun member rest => .cons member.1 member.2 rest) .nil)

/-- A line that carries data. -/
def dataLine (data : Members) : List Char := "data: ".toList ++ (Json.obj data).text

end NeuralHub.Adapters
