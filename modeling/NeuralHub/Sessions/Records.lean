/-
NeuralHub.Sessions.Records — messages as they are stored:
`common/types/message.py` and the message part of `storage/serializers.py`.

A row keeps the tool calls, the tool results and the provider metadata of a
message as JSON texts. An empty list is stored like none (`Message.stored`),
and apart from that a message comes back as it was:
`toMessage_toMessageRecord`.

Here a message has all its fields; the arguments of a call and the metadata
are dictionaries of JSON values. Time stamps are microseconds. A missing
id is refused where the source would make one, and so is what pydantic
would convert to a truth value; no stored text has either. Texts have no
lone surrogates, and integers no more digits than `json.dumps` prints.

The database is PostgreSQL. Its text columns take no U+0000 and an id has at
most 64 characters (`MessageRecord.storable`). `json.dumps` escapes U+0000,
so of a message only the id and the content can be refused
(`storable_toMessageRecord`).
-/
import NeuralHub.AgentLoop.Messages
import NeuralHub.Lib.JsonLayout
import NeuralHub.Lib.Table

namespace NeuralHub.Sessions

open NeuralHub.Lib
open NeuralHub.AgentLoop (Role MessageKind)

/-! ## Messages -/

structure ToolCall where
  id : String
  name : String
  arguments : JsonDict
  deriving DecidableEq, Repr

inductive ChangeType
  | create
  | modify
  | delete
  deriving DecidableEq, Repr

structure FileDiff where
  path : String
  unifiedDiff : String
  changeType : ChangeType := .modify
  deriving DecidableEq, Repr

inductive ArtifactKind
  | image
  | file
  deriving DecidableEq, Repr

structure ToolArtifact where
  kind : ArtifactKind := .file
  path : String
  mimeType : String := ""
  label : String := ""
  source : String := ""
  temporary : Bool := false
  deriving DecidableEq, Repr

structure ToolResult where
  toolCallId : String
  output : String
  isError : Bool := false
  diffs : List FileDiff := []
  artifacts : List ToolArtifact := []
  deriving DecidableEq, Repr

structure Message where
  id : String
  role : Role
  content : String
  kind : MessageKind := .userRequest
  ephemeral : Bool := false
  toolCalls : Option (List ToolCall) := none
  toolResults : Option (List ToolResult) := none
  timestamp : Int
  providerMetadata : JsonDict := .empty
  deriving DecidableEq, Repr

/-! ## `model_dump` -/

/-- An object with these members. -/
def object : List (String × Json) → Members
  | [] => .nil
  | (key, value) :: rest => .cons key value (object rest)

def array : List Json → Items
  | [] => .nil
  | item :: rest => .cons item (array rest)

@[simp] theorem object_nil : object [] = .nil := rfl

@[simp] theorem object_cons (key : String) (value : Json) (rest : List (String × Json)) :
    object ((key, value) :: rest) = .cons key value (object rest) := rfl

@[simp] theorem array_nil : array [] = .nil := rfl

@[simp] theorem array_cons (item : Json) (rest : List Json) :
    array (item :: rest) = .cons item (array rest) := rfl

def ChangeType.text : ChangeType → String
  | .create => "create"
  | .modify => "modify"
  | .delete => "delete"

def ArtifactKind.text : ArtifactKind → String
  | .image => "image"
  | .file => "file"

def ToolCall.dump (call : ToolCall) : Json :=
  .obj (object [("id", .str call.id), ("name", .str call.name),
    ("arguments", .obj call.arguments.members)])

def FileDiff.dump (diff : FileDiff) : Json :=
  .obj (object [("path", .str diff.path), ("unified_diff", .str diff.unifiedDiff),
    ("change_type", .str diff.changeType.text)])

def ToolArtifact.dump (artifact : ToolArtifact) : Json :=
  .obj (object [("kind", .str artifact.kind.text), ("path", .str artifact.path),
    ("mime_type", .str artifact.mimeType), ("label", .str artifact.label),
    ("source", .str artifact.source), ("temporary", .bool artifact.temporary)])

def ToolResult.dump (result : ToolResult) : Json :=
  .obj (object [("tool_call_id", .str result.toolCallId), ("output", .str result.output),
    ("is_error", .bool result.isError), ("diffs", .arr (array (result.diffs.map FileDiff.dump))),
    ("artifacts", .arr (array (result.artifacts.map ToolArtifact.dump)))])

/-! ## `model_validate` -/

def readStr : Json → Option String
  | .str s => some s
  | _ => none

def readBool : Json → Option Bool
  | .bool b => some b
  | _ => none

def readList {α : Type} (read : Json → Option α) : Json → Option (List α)
  | .arr items => items.toList.mapM read
  | _ => none

def readObject {α : Type} (read : Members → Option α) : Json → Option α
  | .obj members => read members
  | _ => none

/-- A member that has to be there. -/
def Members.require {α : Type} (members : Members) (key : String) (read : Json → Option α) :
    Option α :=
  (members.get? key).bind read

@[simp] theorem readStr_str (s : String) : readStr (.str s) = some s := rfl

@[simp] theorem readBool_bool (b : Bool) : readBool (.bool b) = some b := rfl

@[simp] theorem readList_arr {α : Type} (read : Json → Option α) (items : Items) :
    readList read (.arr items) = items.toList.mapM read := rfl

@[simp] theorem readObject_obj {α : Type} (read : Members → Option α) (members : Members) :
    readObject read (.obj members) = read members := rfl

theorem Members.require_eq {α : Type} (members : Members) (key : String)
    (read : Json → Option α) : require members key read = (members.get? key).bind read := rfl

def ChangeType.read : Json → Option ChangeType
  | .str "create" => some .create
  | .str "modify" => some .modify
  | .str "delete" => some .delete
  | _ => none

def ArtifactKind.read : Json → Option ArtifactKind
  | .str "image" => some .image
  | .str "file" => some .file
  | _ => none

def ToolCall.validate : Json → Option ToolCall :=
  readObject fun members => do
    let id ← Members.require members "id" readStr
    let name ← Members.require members "name" readStr
    let arguments ← Members.require members "arguments" (readObject Members.toDict?)
    return { id, name, arguments }

def FileDiff.validate : Json → Option FileDiff :=
  readObject fun members => do
    let path ← Members.require members "path" readStr
    let unifiedDiff ← Members.require members "unified_diff" readStr
    let changeType ← members.getOr "change_type" ChangeType.read .modify
    return { path, unifiedDiff, changeType }

def ToolArtifact.validate : Json → Option ToolArtifact :=
  readObject fun members => do
    let kind ← members.getOr "kind" ArtifactKind.read .file
    let path ← Members.require members "path" readStr
    let mimeType ← members.getOr "mime_type" readStr ""
    let label ← members.getOr "label" readStr ""
    let source ← members.getOr "source" readStr ""
    let temporary ← members.getOr "temporary" readBool false
    return { kind, path, mimeType, label, source, temporary }

def ToolResult.validate : Json → Option ToolResult :=
  readObject fun members => do
    let toolCallId ← Members.require members "tool_call_id" readStr
    let output ← Members.require members "output" readStr
    let isError ← members.getOr "is_error" readBool false
    let diffs ← members.getOr "diffs" (readList FileDiff.validate) []
    let artifacts ← members.getOr "artifacts" (readList ToolArtifact.validate) []
    return { toolCallId, output, isError, diffs, artifacts }

/-! ## `serializers` -/

structure MessageRecord where
  id : String
  sessionId : String
  role : Role
  kind : MessageKind
  ephemeral : Bool
  content : String
  toolCallsJson : Option (List Char)
  toolResultsJson : Option (List Char)
  providerMetadataJson : Option (List Char)
  timestamp : Int
  deriving DecidableEq, Repr

/-- `_dump_models`. -/
def dumpModels {α : Type} (dump : α → Json) : Option (List α) → Option (List Char)
  | none => none
  | some [] => none
  | some items => some (Json.arr (array (items.map dump))).text

/-- `_load_tool_calls` and `_load_tool_results`. -/
def loadModels {α : Type} (validate : Json → Option α) :
    Option (List Char) → Option (Option (List α))
  | none => some none
  | some payload =>
    if payload = [] then some none
    else ((loads payload).bind (readList validate)).map some

def dumpProviderMetadata (metadata : JsonDict) : Option (List Char) :=
  if metadata.members = .nil then none else some (Json.obj metadata.members).text

def loadProviderMetadata : Option (List Char) → Option JsonDict
  | none => some .empty
  | some payload =>
    if payload = [] then some .empty
    else
      (loads payload).bind fun
        | .obj members => members.toDict?
        | _ => some .empty

def toMessageRecord (sessionId : String) (m : Message) : MessageRecord where
  id := m.id
  sessionId := sessionId
  role := m.role
  kind := m.kind
  ephemeral := m.ephemeral
  content := m.content
  toolCallsJson := dumpModels ToolCall.dump m.toolCalls
  toolResultsJson := dumpModels ToolResult.dump m.toolResults
  providerMetadataJson := dumpProviderMetadata m.providerMetadata
  timestamp := m.timestamp

/-- `none` stands for the error of a text that cannot be read. -/
def toMessage (record : MessageRecord) : Option Message := do
  let toolCalls ← loadModels ToolCall.validate record.toolCallsJson
  let toolResults ← loadModels ToolResult.validate record.toolResultsJson
  let providerMetadata ← loadProviderMetadata record.providerMetadataJson
  return {
    id := record.id
    role := record.role
    kind := record.kind
    ephemeral := record.ephemeral
    content := record.content
    toolCalls
    toolResults
    timestamp := record.timestamp
    providerMetadata }

/-! ## The columns -/

/-- The columns take the row. Those of the role and the kind take every role and kind. -/
def MessageRecord.storable (record : MessageRecord) : Bool :=
  varchar 64 record.id && varchar 64 record.sessionId && textual record.content.toList &&
    record.toolCallsJson.all textual && record.toolResultsJson.all textual &&
      record.providerMetadataJson.all textual

/-- What that means for a message. -/
def Message.storable (m : Message) : Bool := varchar 64 m.id && textual m.content.toList

theorem textual_text (v : Json) : textual v.text = true := by
  have hnot : '\x00' ∉ v.text := control_not_mem_text (by decide) v
  simpa [textual] using hnot

theorem textual_dumpModels {α : Type} (dump : α → Json) (items : Option (List α)) :
    (dumpModels dump items).all textual = true := by
  cases items with
  | none => rfl
  | some items =>
    cases items with
    | nil => rfl
    | cons item items => exact textual_text _

theorem textual_dumpProviderMetadata (metadata : JsonDict) :
    (dumpProviderMetadata metadata).all textual = true := by
  unfold dumpProviderMetadata
  split
  · rfl
  · exact textual_text _

/-- Only the id and the content of a message can be refused. -/
theorem storable_toMessageRecord {sessionId : String} (h : varchar 64 sessionId = true)
    (m : Message) : (toMessageRecord sessionId m).storable = m.storable := by
  simp [MessageRecord.storable, toMessageRecord, Message.storable, h, textual_dumpModels,
    textual_dumpProviderMetadata]

/-! ## The round trip -/

/-- A list or none, where an empty list is none. -/
def nonEmpty {α : Type} : Option (List α) → Option (List α)
  | some [] => none
  | items => items

/-- The message with an empty list for none. -/
def Message.stored (m : Message) : Message :=
  { m with toolCalls := nonEmpty m.toolCalls, toolResults := nonEmpty m.toolResults }

@[simp] theorem toList_array (items : List Json) : (array items).toList = items := by
  induction items with
  | nil => rfl
  | cons item items ih => rw [array_cons, Items.toList, ih]

theorem valid_array {items : List Json} (h : ∀ item ∈ items, item.valid = true) :
    (array items).valid = true := by
  induction items with
  | nil => rfl
  | cons item items ih =>
    rw [array_cons, Items.valid, h item List.mem_cons_self, Bool.true_and]
    exact ih fun other hother => h other (List.mem_cons_of_mem item hother)

theorem mapM_map {α : Type} {dump : α → Json} {validate : Json → Option α}
    (h : ∀ x, validate (dump x) = some x) (xs : List α) :
    (xs.map dump).mapM validate = some xs := by
  induction xs with
  | nil => rfl
  | cons x xs ih => simp [h, ih]

/-- Models whose dumps are read back are read back from the text. -/
theorem loadModels_dumpModels {α : Type} {dump : α → Json} {validate : Json → Option α}
    (hvalid : ∀ x, (dump x).valid = true) (h : ∀ x, validate (dump x) = some x)
    (items : Option (List α)) :
    loadModels validate (dumpModels dump items) = some (nonEmpty items) := by
  match items with
  | none => rfl
  | some [] => rfl
  | some (x :: xs) =>
    have hall : (Json.arr (array ((x :: xs).map dump))).valid = true := by
      refine valid_array fun item hitem => ?_
      obtain ⟨y, -, rfl⟩ := List.mem_map.mp hitem
      exact hvalid y
    have hne : (Json.arr (array ((x :: xs).map dump))).text ≠ [] := List.cons_ne_nil _ _
    rw [dumpModels, loadModels, if_neg hne, loads_text hall, Option.bind_some, readList_arr,
      toList_array, mapM_map h]
    · rfl
    · simp

theorem ToolCall.validate_dump (call : ToolCall) : validate call.dump = some call := by
  simp [validate, dump, Members.require_eq, Lib.Members.get?_cons]

theorem FileDiff.validate_dump (diff : FileDiff) : validate diff.dump = some diff := by
  obtain ⟨path, unifiedDiff, changeType⟩ := diff
  cases changeType <;> simp [validate, dump, Members.require_eq, Lib.Members.get?_cons,
    Lib.Members.getOr_eq, ChangeType.text, ChangeType.read]

theorem ToolArtifact.validate_dump (artifact : ToolArtifact) :
    validate artifact.dump = some artifact := by
  obtain ⟨kind, path, mimeType, label, source, temporary⟩ := artifact
  cases kind <;> simp [validate, dump, Members.require_eq, Lib.Members.get?_cons,
    Lib.Members.getOr_eq, ArtifactKind.text, ArtifactKind.read]

theorem ToolResult.validate_dump (result : ToolResult) : validate result.dump = some result := by
  simp [validate, dump, Members.require_eq, Lib.Members.get?_cons, Lib.Members.getOr_eq,
    mapM_map FileDiff.validate_dump, mapM_map ToolArtifact.validate_dump]

theorem ToolCall.valid_dump (call : ToolCall) : call.dump.valid = true := by
  simp [dump, Json.valid, Lib.Members.valid_cons,
    call.arguments.valid]

theorem FileDiff.valid_dump (diff : FileDiff) : diff.dump.valid = true := by
  simp [dump, Json.valid, Lib.Members.valid_cons]

theorem ToolArtifact.valid_dump (artifact : ToolArtifact) : artifact.dump.valid = true := by
  simp [dump, Json.valid, Lib.Members.valid_cons]

theorem ToolResult.valid_dump (result : ToolResult) : result.dump.valid = true := by
  have hdiffs : (array (result.diffs.map FileDiff.dump)).valid = true := by
    refine valid_array fun item hitem => ?_
    obtain ⟨diff, -, rfl⟩ := List.mem_map.mp hitem
    exact diff.valid_dump
  have hartifacts : (array (result.artifacts.map ToolArtifact.dump)).valid = true := by
    refine valid_array fun item hitem => ?_
    obtain ⟨artifact, -, rfl⟩ := List.mem_map.mp hitem
    exact artifact.valid_dump
  simp [dump, Json.valid, Lib.Members.valid_cons, hdiffs, hartifacts]

theorem loadProviderMetadata_dump (metadata : JsonDict) :
    loadProviderMetadata (dumpProviderMetadata metadata) = some metadata := by
  obtain ⟨members, hvalid⟩ := metadata
  rw [dumpProviderMetadata]
  split
  · rename_i hnil
    dsimp only at hnil
    subst hnil
    rfl
  · have hne : (Json.obj members).text ≠ [] := List.cons_ne_nil _ _
    have hread : loads (Json.obj members).text = some (.obj members) := loads_text hvalid
    rw [loadProviderMetadata, if_neg hne, hread, Option.bind_some]
    exact JsonDict.toDict?_members ⟨members, hvalid⟩

/-- **A row is read back as the message it was made from.** -/
theorem toMessage_toMessageRecord (sessionId : String) (m : Message) :
    toMessage (toMessageRecord sessionId m) = some m.stored := by
  have hcalls := loadModels_dumpModels ToolCall.valid_dump ToolCall.validate_dump m.toolCalls
  have hresults :=
    loadModels_dumpModels ToolResult.valid_dump ToolResult.validate_dump m.toolResults
  have hmetadata := loadProviderMetadata_dump m.providerMetadata
  simp only [toMessage, toMessageRecord, hcalls, hresults, hmetadata, Option.bind_eq_bind,
    Option.bind_some]
  rfl

end NeuralHub.Sessions
