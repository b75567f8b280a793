/-
NeuralHub.Sessions.SessionStore — the messages of `session_store.py`.

The table of messages has the id of a message as its key, over all
sessions, and every row is of a session that there is. Each call is one
transaction; `none` stands for the `AgentError` of a call that was rolled
back. Of a session only its id is kept.

Nothing in a row says where in the list its message stood: `get_messages`
and `get` put the rows in the order of their time stamps, and of their ids
where these are equal (compared by code points, in the database as well).

A statement with U+0000 in a parameter is refused, and so is a row that its
columns do not take.
-/
import Mathlib.Data.List.Sort
import Mathlib.Data.Prod.Lex
import Mathlib.Data.String.Basic
import NeuralHub.Lib.Table
import NeuralHub.Sessions.Records

namespace NeuralHub.Sessions

open NeuralHub.Lib

structure Database where
  sessions : List String
  /-- the column of their ids -/
  named : ∀ id ∈ sessions, varchar 64 id = true
  messages : Table MessageRecord.id
  /-- the foreign key -/
  owned : ∀ record ∈ messages.entries, record.sessionId ∈ sessions

/-- `select(MessageRecord).where(session_id == …)`, in the order of the table. -/
def Database.records (db : Database) (sessionId : String) : List MessageRecord :=
  db.messages.entries.filter fun record => record.sessionId = sessionId

/-- Insert the rows of messages of one session into a part of the table. -/
def Database.insert (db : Database) (keep : MessageRecord → Bool) (sessionId : String)
    (h : sessionId ∈ db.sessions) (messages : List Message) : Option Database :=
  if (messages.map (toMessageRecord sessionId)).all MessageRecord.storable then
    match hinsert :
      (db.messages.keep keep).insertAll (messages.map (toMessageRecord sessionId)) with
    | none => none
    | some table => some
      { sessions := db.sessions
        named := db.named
        messages := table
        owned := by
          intro record hrecord
          rw [(Table.insertAll_eq_some_iff.mp hinsert).2.2, List.mem_append] at hrecord
          rcases hrecord with hold | hnew
          · exact db.owned record (List.mem_filter.mp hold).1
          · obtain ⟨message, -, rfl⟩ := List.mem_map.mp hnew
            exact h }
  else none

/-- `save_messages`: all rows of the session are replaced. -/
def saveMessages (db : Database) (sessionId : String) (messages : List Message) :
    Option Database :=
  if h : sessionId ∈ db.sessions then
    db.insert (fun record => record.sessionId ≠ sessionId) sessionId h messages
  else if textual sessionId.toList then some db
  else none

/-- `add_messages`. -/
def addMessages (db : Database) (sessionId : String) (messages : List Message) :
    Option Database :=
  if messages = [] then some db
  else if h : sessionId ∈ db.sessions then db.insert (fun _ => true) sessionId h messages
  else if textual sessionId.toList then some db
  else none

/-- `(timestamp, id)`. -/
def MessageRecord.sortKey (record : MessageRecord) : Int ×ₗ String :=
  toLex (record.timestamp, record.id)

/-- `ORDER BY timestamp, id`. -/
def inOrder (records : List MessageRecord) : List MessageRecord :=
  records.insertionSort fun a b => a.sortKey ≤ b.sortKey

def getMessages (db : Database) (sessionId : String) : Option (List Message) :=
  if textual sessionId.toList then (inOrder (db.records sessionId)).mapM toMessage else none

/-- The messages of `get`, if there is such a session. -/
def get (db : Database) (sessionId : String) : Option (Option (List Message)) :=
  if sessionId ∈ db.sessions then (getMessages db sessionId).map some
  else if textual sessionId.toList then some none
  else none

/-! ## What is stored -/

variable {db db' : Database} {sessionId : String} {messages : List Message}

/-- The id of a session is one that a statement takes. -/
theorem textual_of_mem (h : sessionId ∈ db.sessions) : textual sessionId.toList = true := by
  have hnamed := db.named sessionId h
  rw [varchar, Bool.and_eq_true] at hnamed
  exact hnamed.1

theorem insert_eq_some {keep : MessageRecord → Bool} {h : sessionId ∈ db.sessions}
    (hinsert : db.insert keep sessionId h messages = some db') :
    db'.sessions = db.sessions ∧ (db.messages.keep keep).insertAll
      (messages.map (toMessageRecord sessionId)) = some db'.messages := by
  unfold Database.insert at hinsert
  split at hinsert
  · split at hinsert
    · cases hinsert
    · rename_i htable
      cases hinsert
      exact ⟨rfl, htable⟩
  · cases hinsert

@[simp] theorem map_id_toMessageRecord (sessionId : String) (messages : List Message) :
    (messages.map (toMessageRecord sessionId)).map MessageRecord.id = messages.map Message.id := by
  rw [List.map_map]
  rfl

/-- The columns take the rows of a session when they take the messages. -/
theorem all_storable_iff (h : sessionId ∈ db.sessions) :
    (messages.map (toMessageRecord sessionId)).all MessageRecord.storable = true ↔
      ∀ m ∈ messages, m.storable = true := by
  simp [List.all_eq_true, storable_toMessageRecord (db.named sessionId h)]

/-- Rows are refused when a column does not take them, and when an id comes twice or belongs to a
row that stays. -/
theorem exists_insert_iff {keep : MessageRecord → Bool} {h : sessionId ∈ db.sessions} :
    (∃ db', db.insert keep sessionId h messages = some db') ↔
      (∀ m ∈ messages, m.storable = true) ∧ (messages.map Message.id).Nodup ∧
        ∀ record ∈ db.messages.entries, keep record = true →
          record.id ∉ messages.map Message.id := by
  have hinsert : (∃ db', db.insert keep sessionId h messages = some db') ↔
      (∀ m ∈ messages, m.storable = true) ∧ ∃ table, (db.messages.keep keep).insertAll
        (messages.map (toMessageRecord sessionId)) = some table := by
    rw [← all_storable_iff h]
    constructor
    · rintro ⟨db', hdb'⟩
      refine ⟨?_, db'.messages, (insert_eq_some hdb').2⟩
      by_contra hrefused
      rw [Database.insert, if_neg hrefused] at hdb'
      cases hdb'
    · rintro ⟨hstorable, table, htable⟩
      rw [Database.insert, if_pos hstorable]
      split
      · rename_i hnone
        rw [hnone] at htable
        cases htable
      · exact ⟨_, rfl⟩
  rw [hinsert, Table.exists_insertAll_iff, map_id_toMessageRecord]
  refine and_congr_right fun _ => and_congr_right fun _ => ?_
  simp only [Table.keep, List.mem_map, List.mem_filter, not_exists, not_and, forall_exists_index,
    and_imp]
  constructor
  · intro hnew record hrecord hkeep message hmessage heq
    exact hnew _ message hmessage rfl record hrecord hkeep heq.symm
  · rintro hold _ message hmessage rfl record hrecord hkeep heq
    exact hold record hrecord hkeep message hmessage heq.symm

/-- The rows of a session: those that are kept, and behind them the new ones. -/
theorem records_insert {keep : MessageRecord → Bool} {h : sessionId ∈ db.sessions}
    (hinsert : db.insert keep sessionId h messages = some db') (other : String) :
    db'.records other = (db.records other).filter keep ++
      if other = sessionId then messages.map (toMessageRecord sessionId) else [] := by
  obtain ⟨-, htable⟩ := insert_eq_some hinsert
  have hnew : (messages.map (toMessageRecord sessionId)).filter
      (fun record => record.sessionId = other) =
        if other = sessionId then messages.map (toMessageRecord sessionId) else [] := by
    split
    · rename_i heq
      refine List.filter_eq_self.mpr fun record hrecord => ?_
      obtain ⟨message, -, rfl⟩ := List.mem_map.mp hrecord
      simp [toMessageRecord, heq]
    · rename_i hne
      refine List.filter_eq_nil_iff.mpr fun record hrecord => ?_
      obtain ⟨message, -, rfl⟩ := List.mem_map.mp hrecord
      simp [toMessageRecord, Ne.symm hne]
  rw [Database.records, (Table.insertAll_eq_some_iff.mp htable).2.2, List.filter_append, hnew,
    Database.records, List.filter_filter, Table.keep, List.filter_filter]
  simp only [Bool.and_comm]

/-- After a save the rows of the session are those of the messages. -/
theorem records_saveMessages (h : sessionId ∈ db.sessions)
    (hsave : saveMessages db sessionId messages = some db') :
    db'.records sessionId = messages.map (toMessageRecord sessionId) := by
  rw [saveMessages, dif_pos h] at hsave
  rw [records_insert hsave, if_pos rfl, List.filter_eq_nil_iff.mpr, List.nil_append]
  intro record hrecord
  simpa using (List.mem_filter.mp hrecord).2

end NeuralHub.Sessions
