/-
NeuralHub.Sessions.Reload — when a saved conversation reloads as it was.

The fields of a message always come back (`toMessage_toMessageRecord`). The
order does exactly when it is the one that `ORDER BY timestamp, id` gives,
`InSavedOrder`, as long as the columns take the messages: `reloads_iff`. A
history that only grows under a clock that
does go forward keeps it (`inSavedOrder_snoc`). Compaction loses it: the
summary is the youngest message of the list and stands in front of the
recent ones (`not_inSavedOrder_compacted`).

`Held` is a part of what a history can hold: messages one behind the other,
and the lists that `ContextCompressor.compact` makes of them. It takes the
compaction from `AgentLoop.Compaction`, where a message has no time stamp
and no metadata (`Message.plain`).
-/
import NeuralHub.AgentLoop.Compaction
import NeuralHub.Sessions.SessionStore

namespace NeuralHub.Sessions

open NeuralHub.Lib

variable {db db' : Database} {sessionId : String} {messages : List Message} {m : Message}

/-! ## Reloading -/

/-- The messages are saved, and both ways to read them give them back, in their order. -/
def Reloads (db : Database) (sessionId : String) (messages : List Message) : Prop :=
  ∃ db', saveMessages db sessionId messages = some db' ∧
    getMessages db' sessionId = some (messages.map Message.stored) ∧
    get db' sessionId = if sessionId ∈ db.sessions then
      some (some (messages.map Message.stored)) else some none

def Message.sortKey (m : Message) : Int ×ₗ String := toLex (m.timestamp, m.id)

/-- The order in which the rows are read. -/
def InSavedOrder (messages : List Message) : Prop :=
  messages.Pairwise fun a b => a.sortKey ≤ b.sortKey

/-- The ids are different and none is the id of a message of another session. -/
def OwnIds (db : Database) (sessionId : String) (messages : List Message) : Prop :=
  (messages.map Message.id).Nodup ∧ ∀ record ∈ db.messages.entries,
    record.sessionId ≠ sessionId → record.id ∉ messages.map Message.id

theorem mapM_toMessage (messages : List Message) :
    (messages.map (toMessageRecord sessionId)).mapM toMessage =
      some (messages.map Message.stored) := by
  induction messages with
  | nil => rfl
  | cons m messages ih => simp [toMessage_toMessageRecord, ih]

/-- What is read behind a save: the messages in the order of their times and ids. -/
theorem getMessages_saved (h : sessionId ∈ db.sessions)
    (hsave : saveMessages db sessionId messages = some db') :
    getMessages db' sessionId =
      some ((messages.insertionSort fun a b => a.sortKey ≤ b.sortKey).map Message.stored) := by
  have hsort : inOrder (messages.map (toMessageRecord sessionId)) =
      (messages.insertionSort fun a b => a.sortKey ≤ b.sortKey).map
        (toMessageRecord sessionId) := by
    rw [inOrder, ← List.map_insertionSort (r := fun a b : Message => a.sortKey ≤ b.sortKey)]
    intro a _ b _
    rfl
  rw [getMessages, if_pos (textual_of_mem h), records_saveMessages h hsave, hsort, mapM_toMessage]

theorem sorted_iff : (messages.insertionSort fun a b => a.sortKey ≤ b.sortKey).map Message.stored =
    messages.map Message.stored ↔ InSavedOrder messages := by
  have hkey : ∀ list : List Message, (list.map Message.stored).Pairwise
      (fun a b => a.sortKey ≤ b.sortKey) ↔ InSavedOrder list := fun list => List.pairwise_map
  constructor
  · intro heq
    have hsorted : InSavedOrder (messages.insertionSort fun a b => a.sortKey ≤ b.sortKey) := by
      have : Std.Total (fun a b : Message => a.sortKey ≤ b.sortKey) := ⟨fun a b => le_total _ _⟩
      have : IsTrans Message (fun a b => a.sortKey ≤ b.sortKey) := ⟨fun a b c => le_trans⟩
      exact List.pairwise_insertionSort _ messages
    rw [← hkey, ← heq, hkey]
    exact hsorted
  · intro hsorted
    rw [hsorted.insertionSort_eq]

/-- **A conversation reloads as it was exactly when it is in the order of its
times and ids**, apart from what hinders the save itself. -/
theorem reloads_iff (db : Database) (sessionId : String) (messages : List Message) :
    Reloads db sessionId messages ↔
      (messages = [] ∧ textual sessionId.toList = true ∨ sessionId ∈ db.sessions) ∧
        (∀ m ∈ messages, m.storable = true) ∧ OwnIds db sessionId messages ∧
          InSavedOrder messages := by
  by_cases h : sessionId ∈ db.sessions
  · have hinsert : (∃ db', saveMessages db sessionId messages = some db') ↔
        (∀ m ∈ messages, m.storable = true) ∧ OwnIds db sessionId messages := by
      rw [saveMessages, dif_pos h, exists_insert_iff]
      simp [OwnIds]
    constructor
    · rintro ⟨db', hsave, hget, -⟩
      rw [getMessages_saved h hsave, Option.some.injEq, sorted_iff] at hget
      obtain ⟨hstorable, hids⟩ := hinsert.mp ⟨db', hsave⟩
      exact ⟨.inr h, hstorable, hids, hget⟩
    · rintro ⟨-, hstorable, hids, horder⟩
      obtain ⟨db', hsave⟩ := hinsert.mpr ⟨hstorable, hids⟩
      have hread : getMessages db' sessionId = some (messages.map Message.stored) := by
        rw [getMessages_saved h hsave, sorted_iff.mpr horder]
      have hsessions : sessionId ∈ db'.sessions := by
        rw [saveMessages, dif_pos h] at hsave
        rw [(insert_eq_some hsave).1]
        exact h
      exact ⟨db', hsave, hread, by rw [get, if_pos hsessions, if_pos h, hread]; rfl⟩
  by_cases htext : textual sessionId.toList = true
  · have hnone : db.records sessionId = [] := by
      refine List.filter_eq_nil_iff.mpr fun record hrecord heq => h ?_
      rw [← decide_eq_true_iff.mp heq]
      exact db.owned record hrecord
    have hread : getMessages db sessionId = some [] := by
      rw [getMessages, if_pos htext, hnone]
      rfl
    have hsave : saveMessages db sessionId messages = some db := by
      rw [saveMessages, dif_neg h, if_pos htext]
    constructor
    · rintro ⟨db', hdb', hget, -⟩
      rw [hsave] at hdb'
      cases hdb'
      rw [hread, Option.some.injEq] at hget
      have hnil : messages = [] := List.map_eq_nil_iff.mp hget.symm
      subst hnil
      exact ⟨.inl ⟨rfl, htext⟩, by simp, ⟨by simp, by simp⟩, .nil⟩
    · rintro ⟨hnil, -, -, -⟩
      have hnil : messages = [] := by tauto
      subst hnil
      exact ⟨db, hsave, hread, by rw [get, if_neg h, if_neg h, if_pos htext]⟩
  · have hsave : saveMessages db sessionId messages = none := by
      rw [saveMessages, dif_neg h, if_neg htext]
    constructor
    · rintro ⟨db', hdb', -⟩
      rw [hsave] at hdb'
      cases hdb'
    · rintro ⟨hcan, -⟩
      tauto

/-! ## What a history can hold -/

/-- A later message keeps the order. -/
theorem inSavedOrder_snoc (h : InSavedOrder messages)
    (hlater : ∀ other ∈ messages, other.timestamp < m.timestamp) :
    InSavedOrder (messages ++ [m]) := by
  refine List.pairwise_append.mpr
    ⟨h, List.pairwise_singleton _ _, fun other hother next hnext => ?_⟩
  rw [List.mem_singleton.mp hnext]
  exact Prod.Lex.toLex_le_toLex.mpr (.inl (hlater other hother))

/-- A younger message in front of an older one loses it. -/
theorem not_inSavedOrder_compacted {front recent : List Message} {summary : Message}
    (hm : m ∈ recent) (hlater : m.timestamp < summary.timestamp) :
    ¬ InSavedOrder (front ++ summary :: recent) := by
  intro h
  have hle := (List.pairwise_cons.mp (List.pairwise_append.mp h).2.1).1 m hm
  rcases Prod.Lex.toLex_le_toLex.mp hle with hlt | ⟨heq, -⟩
  · exact absurd hlt (not_lt.mpr hlater.le)
  · exact absurd heq hlater.ne'

/-! ## What the loop and the compaction see of a message -/

def ToolCall.plain (call : ToolCall) : AgentLoop.ToolCall where
  id := call.id
  name := call.name
  arguments := String.ofList (Json.obj call.arguments.members).text

def ToolResult.plain (result : ToolResult) : AgentLoop.ToolResult where
  toolCallId := result.toolCallId
  output := result.output
  isError := result.isError
  artifacts := result.artifacts.map (·.path)

def Message.plain (m : Message) : AgentLoop.Message where
  id := 0
  role := m.role
  content := m.content
  kind := m.kind
  ephemeral := m.ephemeral
  toolCalls := (m.toolCalls.getD []).map ToolCall.plain
  toolResults := (m.toolResults.getD []).map ToolResult.plain

/-- A list that a history can hold, and the time of its last change. -/
inductive Held : Int → List Message → Prop
  | start {m : Message} : m.role = .system → Held m.timestamp [m]
  | append {now : Int} {messages : List Message} {m : Message} :
      Held now messages → now ≤ m.timestamp → m.id ∉ messages.map Message.id →
      Held m.timestamp (messages ++ [m])
  | compact {now : Int} {messages front recent : List Message} {summary : Message}
      (s : AgentLoop.Summary) (fallback : Bool) (reserve : Nat) :
      Held now messages → now ≤ summary.timestamp → summary.id ∉ messages.map Message.id →
      (∀ m ∈ front ++ recent, m ∈ messages) →
      AgentLoop.compact 0 s fallback reserve (messages.map Message.plain) =
        AgentLoop.replaceOld 0 s reserve (messages.map Message.plain) →
      front.map Message.plain = AgentLoop.systemMessages (messages.map Message.plain) ++
        AgentLoop.summaryMessages (messages.map Message.plain) →
      summary.plain = AgentLoop.buildSummaryMessage 0 s →
      recent.map Message.plain = AgentLoop.recentMessages reserve (messages.map Message.plain) →
      Held summary.timestamp (front ++ summary :: recent)

def instruction : Message := { id := "s", role := .system, content := "help", timestamp := 0 }

def request (id : String) (timestamp : Int) : Message :=
  { id, role := .user, content := "go on", timestamp }

def recentRequests : List Message :=
  [request "b" 2, request "c" 3, request "d" 4, request "e" 5, request "f" 6, request "g" 7]

def compactedAway : Message where
  id := "h"
  role := .user
  kind := .summary
  content := "<conversation_summary>\nwork\n</conversation_summary>"
  timestamp := 8

theorem held_compacted : Held 8 ([instruction] ++ compactedAway :: recentRequests) := by
  have hstart : Held instruction.timestamp [instruction] := .start rfl
  have hrun : Held 7 ([instruction, request "a" 1] ++ recentRequests) :=
    .append (m := request "g" 7) (.append (m := request "f" 6) (.append (m := request "e" 5)
      (.append (m := request "d" 4) (.append (m := request "c" 3) (.append (m := request "b" 2)
        (.append (m := request "a" 1) hstart (by decide) (by decide)) (by decide) (by decide))
        (by decide) (by decide)) (by decide) (by decide)) (by decide) (by decide)) (by decide)
        (by decide)) (by decide) (by decide)
  have hheld : Held compactedAway.timestamp ([instruction] ++ compactedAway :: recentRequests) :=
    .compact { text := "work" } false 6 hrun (by decide) (by decide) (by decide) (by decide)
      (by decide) (by decide) (by decide)
  exact hheld

/-- A compacted history reloads with its summary behind the messages that follow it. -/
theorem not_held_reloads : ¬ ∀ (db : Database) (sessionId : String) (now : Int)
    (messages : List Message), sessionId ∈ db.sessions → Held now messages →
      OwnIds db sessionId messages → Reloads db sessionId messages := by
  intro hall
  let db : Database := ⟨["chat"], by decide, .empty, by simp [Table.empty]⟩
  obtain ⟨db', hsave, hget, -⟩ := hall db "chat" 8 _ (by decide) held_compacted
    ⟨by decide, by simp [db, Table.empty]⟩
  rw [getMessages_saved (by decide) hsave, Option.some.injEq, sorted_iff] at hget
  exact not_inSavedOrder_compacted (m := request "b" 2) (by decide) (by decide) hget

end NeuralHub.Sessions
