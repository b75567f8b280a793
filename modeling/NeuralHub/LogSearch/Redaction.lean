/-
NeuralHub.LogSearch.Redaction — what an entry of the log search shows of a
record: `sanitize_value` and `record_to_entry` of `models.py`.

A record is a dictionary that `json.loads` has made; `str` of a value is a
parameter. The fields that every entry has are shown as texts, and all
others with "[redacted]" under the keys that contain one of
`SENSITIVE_KEYS`, at any depth. The member "logger" is shown nowhere, and
a field that is a dictionary or a list is shown whole, by `str`, with what
stands under sensitive keys in it.

`entries_eq_iff`: two records make the same entry exactly when their fields
have the same texts and the same is visible in their other members. So
nothing under a sensitive key of these has any influence on an entry.
-/
import Mathlib.Data.List.Infix
import NeuralHub.Lib.JsonPaths
import NeuralHub.Lib.Text

namespace NeuralHub.LogSearch

open NeuralHub.Lib

/-- `ROOT_FIELDS`. -/
def rootFields : List String :=
  ["timestamp", "level", "event", "trace_id", "session_id", "worker_id", "component", "logger"]

/-- `SENSITIVE_KEYS`. -/
def sensitiveKeys : List String :=
  ["api_key", "authorization", "cookie", "password", "secret", "token"]

/-- A key that is one of them, or contains one, in any case. -/
def isSensitive (key : String) : Bool :=
  let keyLower := Text.lower key.toList
  (sensitiveKeys.map String.toList).contains keyLower ||
    sensitiveKeys.any fun item => decide (item.toList <:+: keyLower)

def redacted : Json := .str "[redacted]"

mutual

def sanitizeValue (key : String) : Json → Json
  | .obj members => if isSensitive key then redacted else .obj (sanitizeMembers members)
  | .arr items => if isSensitive key then redacted else .arr (sanitizeItems key items)
  | .null => if isSensitive key then redacted else .null
  | .bool b => if isSensitive key then redacted else .bool b
  | .int n => if isSensitive key then redacted else .int n
  | .float x => if isSensitive key then redacted else .float x
  | .str s => if isSensitive key then redacted else .str s

def sanitizeItems (key : String) : Items → Items
  | .nil => .nil
  | .cons item rest => .cons (sanitizeValue key item) (sanitizeItems key rest)

def sanitizeMembers : Members → Members
  | .nil => .nil
  | .cons key value rest => .cons key (sanitizeValue key value) (sanitizeMembers rest)

end

/-- `LogEntryResponse`. -/
structure LogEntry where
  timestamp : String
  level : String
  event : String
  traceId : String
  sessionId : String
  workerId : String
  component : String
  extra : Members

/-- The members of a record that no field of an entry shows. -/
def extraMembers : Members → Members
  | .nil => .nil
  | .cons key value rest =>
      if rootFields.contains key then extraMembers rest else .cons key value (extraMembers rest)

variable (str : Json → String)

/-- `str(record.get(key, ""))`. -/
def textOf (record : JsonDict) (key : String) : String :=
  match record.members.get? key with
  | some value => str value
  | none => ""

def recordToEntry (record : JsonDict) : LogEntry where
  timestamp := textOf str record "timestamp"
  level := textOf str record "level"
  event := textOf str record "event"
  traceId := textOf str record "trace_id"
  sessionId := textOf str record "session_id"
  workerId := textOf str record "worker_id"
  component := textOf str record "component"
  extra := sanitizeMembers (extraMembers record.members)

/-- Headers with a token, and a member that no entry shows. -/
def aRecord : JsonDict where
  members :=
    .cons "logger" (.str "x") (.cons "headers" (.arr (.cons (.obj
      (.cons "X-Auth-Token" (.obj (.cons "id" (.int 1) .nil)) (.cons "host" (.str "h") .nil)))
        .nil)) .nil)
  valid := by decide

example : (recordToEntry (fun _ => "") aRecord).extra =
    .cons "headers" (.arr (.cons (.obj
      (.cons "X-Auth-Token" redacted (.cons "host" (.str "h") .nil))) .nil)) .nil := by
  decide +kernel

/-! ## What an entry depends on -/

mutual

theorem sanitizeValue_eq (key : String) (v : Json) :
    sanitizeValue key v = redact isSensitive redacted key v := by
  cases v with
  | obj members => rw [sanitizeValue, redact, sanitizeMembers_eq members]
  | arr items => rw [sanitizeValue, redact, sanitizeItems_eq key items]
  | _ => rfl

theorem sanitizeItems_eq (key : String) (items : Items) :
    sanitizeItems key items = redactItems isSensitive redacted key items := by
  cases items with
  | nil => rfl
  | cons item rest =>
    rw [sanitizeItems, redactItems, sanitizeValue_eq key item, sanitizeItems_eq key rest]

theorem sanitizeMembers_eq (members : Members) :
    sanitizeMembers members = redactMembers isSensitive redacted members := by
  cases members with
  | nil => rfl
  | cons name value rest =>
    rw [sanitizeMembers, redactMembers, sanitizeValue_eq name value, sanitizeMembers_eq rest]

end

theorem isSensitive_nil : isSensitive "" = false := by decide +kernel

/-- The fields of a record that are shown as texts. -/
def textFields : List String :=
  ["timestamp", "level", "event", "trace_id", "session_id", "worker_id", "component"]

/-- What an entry shows of the members that are no fields. -/
def shown (record : JsonDict) : List Nat → Option Shape :=
  visible isSensitive "" (.obj (extraMembers record.members))

theorem extra_eq_iff (record record' : JsonDict) :
    sanitizeMembers (extraMembers record.members) = sanitizeMembers (extraMembers record'.members) ↔
      ∀ position, shown record position = shown record' position := by
  have hredact := redact_eq_iff isSensitive redacted ""
    (.obj (extraMembers record.members)) (.obj (extraMembers record'.members))
  rw [redact_obj isSensitive_nil, redact_obj isSensitive_nil, Json.obj.injEq] at hredact
  rw [sanitizeMembers_eq, sanitizeMembers_eq]
  exact hredact

/-- **What two entries have in common.** Whatever stands under a sensitive key makes no difference
to an entry, and everything else does. -/
theorem entries_eq_iff (str : Json → String) (record record' : JsonDict) :
    recordToEntry str record = recordToEntry str record' ↔
      (∀ key ∈ textFields, textOf str record key = textOf str record' key) ∧
        ∀ position, shown record position = shown record' position := by
  rw [← extra_eq_iff]
  simp only [recordToEntry, LogEntry.mk.injEq, textFields, List.forall_mem_cons, List.not_mem_nil,
    false_implies, implies_true, and_true]
  tauto

end NeuralHub.LogSearch
