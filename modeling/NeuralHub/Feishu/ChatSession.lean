/-
NeuralHub.Feishu.ChatSession — the stored session of a Feishu chat, the
turns that replace it, and the records that are added to it.

Source: `feishu_handler.py` (the turn of a text message in
`handle_message`, `_get_or_create_loop`, `_restore_loop`, `_persist_turn`),
`feishu_session_recorder.py`, and `session_store.py`.

A turn holds the lock of the chat from its load to its end; the recorder
takes no lock. Each call of the store is one step, and so is what a turn
does between two awaits; the run is the machine of `AgentLoop.Run`. The
messages of all loops and records have ids from one counter. What the
session says about model and prompt, metadata, and the memory store are
left out, and so are the turns of plans and commands, which have other
loops.
-/
import Mathlib.Data.Prod.Lex
import NeuralHub.AgentLoop.MessageHistory
import NeuralHub.AgentLoop.Run

namespace NeuralHub.Feishu

open NeuralHub.Lib
open NeuralHub.AgentLoop (Message Config)

/-! ## Records -/

/-- `FeishuOutboundTextRecord` and `FeishuOutboundFileRecord` of the chat. -/
inductive OutboundRecord where
  | text (text source : String)
  | file (fileName fileKey localPath summary source : String)
  deriving DecidableEq, Repr

def maxContextChars : Nat := 6000

/-- `_clip` -/
def clipContext (text : List Char) (limit : Nat) : List Char :=
  let normalized := Text.strip text
  if normalized.length ≤ limit then normalized
  else Text.rstrip (normalized.take limit) ++ "...[已截断]".toList

def wrapContext (source text : String) : String :=
  "<feishu_outbound_context source=\"" ++ source ++ "\">\n" ++ text ++
    "\n</feishu_outbound_context>"

def fileContext (fileName fileKey localPath summary source : String) : String :=
  let lines :=
    ["我已向当前飞书会话发送一个附件；这是附件元数据记录。", "文件名: " ++ fileName] ++
      (if fileKey ≠ "" then ["file_key: " ++ fileKey] else []) ++
      (if localPath ≠ "" then ["本地路径: " ++ localPath] else []) ++
      (if summary ≠ "" then
        ["说明: " ++ String.ofList (clipContext summary.toList maxContextChars)] else []) ++
      ["注意: 这不代表模型已读取附件全文；需要正文时应读取本地路径或走知识库检索。"]
  wrapContext source ("\n".intercalate lines)

/-- The content of the message; `none` for a record that is ignored. -/
def OutboundRecord.content : OutboundRecord → Option String
  | .text body source =>
    if Text.strip body.toList = [] then none
    else some (wrapContext source (String.ofList (clipContext body.toList maxContextChars)))
  | .file fileName fileKey localPath summary source =>
    if Text.strip fileName.toList = [] then none
    else some (fileContext fileName fileKey localPath summary source)

def recordMessage (id : Nat) (content : String) : Message :=
  { id, role := .user, kind := .runtimeContext, content }

/-! ## Loading and restoring -/

/-- `get` sorts the rows by their time stamps and ids. -/
def inOrder (timestamp : Nat → Int) (rows : List Message) : List Message :=
  rows.insertionSort fun a b => toLex (timestamp a.id, a.id) ≤ toLex (timestamp b.id, b.id)

/-- `restore_messages` -/
def restoreMessages (id : Nat) (systemPrompt : String) (messages : List Message) : List Message :=
  AgentLoop.sanitizeMessageHistory (id + 1)
    ({ id, role := .system, content := systemPrompt } ::
      messages.filter fun message => message.role ≠ .system)

/-- The history with which a loop starts. -/
def restoredHistory (id : Nat) (systemPrompt : String) : Option (List Message) → List Message
  | none => []
  | some messages => if messages = [] then [] else restoreMessages id systemPrompt messages

def messagesWithoutSystem (messages : List Message) : List Message :=
  messages.filter fun message => message.role ≠ .system

/-! ## A chat -/

/-- What follows on `_persist_turn`: the reply, or nothing after an exception. -/
inductive AfterPersist where
  | reply | stop
  deriving DecidableEq

/-- Where the turn that has the lock of the chat stands. -/
inductive TurnPoint where
  | idle
  /-- the session is loaded, the provider and the loop are awaited -/
  | loaded (session : Option (List Message))
  | running
  /-- `ensure_session` of `_persist_turn` -/
  | persisting (next : AfterPersist)
  /-- `save_messages` of `_persist_turn` -/
  | saving (next : AfterPersist)
  | replying
  deriving DecidableEq

structure ChatState where
  /-- the messages of the stored session, if there is one -/
  rows : Option (List Message) := none
  /-- the loop of the chat in `_sessions` -/
  loop : Option (Config × AgentLoop.State) := none
  nextId : Nat := 0
  /-- the records whose session is ensured and whose message is not added yet -/
  recording : List OutboundRecord := []
  turn : TurnPoint := .idle

inductive Action where
  | load
  /-- restore the loop, or the one that was built, and start the run -/
  | start (built : Option (Config × AgentLoop.State)) (systemPrompt text : String)
  /-- a step of the run, or of what goes on around it -/
  | loop (a : AgentLoop.Action)
  | ensureSession
  | saveMessages
  /-- an exception in `_persist_turn`, which is only logged -/
  | persistFails
  | replied
  /-- an exception in the reply or in the sending of files -/
  | replyRaised
  /-- an exception before the run, or a cancellation outside of it -/
  | giveUp
  /-- `ensure_session` of a record -/
  | ensureRecord (r : OutboundRecord)
  /-- `add_messages` of a record -/
  | addRecord (r : OutboundRecord)
  /-- an exception of the store in a record -/
  | recordFails (r : OutboundRecord)

/-- What is done after `_persist_turn`. -/
def AfterPersist.point : AfterPersist → TurnPoint
  | .reply => .replying
  | .stop => .idle

/-- Where the turn stands after a step of its loop. -/
def TurnPoint.after (turn : TurnPoint) (point : AgentLoop.Point) : TurnPoint :=
  match turn, point with
  | .running, .idle (some (.returned _)) => .persisting .reply
  | .running, .idle (some (.raised _)) => .persisting .stop
  | .running, .idle _ => .idle
  | turn, _ => turn

/-- A run is started by a turn only, and goes on only in one. -/
def TurnPoint.admits : TurnPoint → AgentLoop.Action → Bool
  | _, .run _ => false
  | .running, .resume _ => true
  | _, .resume _ => false
  | _, _ => true

/-- The loop of the turn takes a step. -/
def ChatState.stepLoop (s : ChatState) (cfg : Config) (loop : AgentLoop.State) (turn : TurnPoint)
    (a : AgentLoop.Action) : Option ChatState :=
  (AgentLoop.step cfg { loop with nextId := s.nextId } a).map fun after =>
    { s with loop := some (cfg, after), nextId := after.nextId, turn := turn.after after.point }

/-- Restore the history and run. -/
def ChatState.start (s : ChatState) (session : Option (List Message)) (cfg : Config)
    (loop : AgentLoop.State) (systemPrompt text : String) : Option ChatState :=
  let cfg := if session.isSome then { cfg with systemPrompt } else cfg
  let history := restoredHistory s.nextId systemPrompt session
  -- enough ids for the system message and for the tool messages that are made
  { s with nextId := s.nextId + 1 + (session.getD []).length }.stepLoop cfg { loop with history }
    .running (.run text)

def step (timestamp : Nat → Int) (s : ChatState) : Action → Option ChatState
  | .load =>
    match s.turn with
    | .idle => some { s with turn := .loaded (s.rows.map (inOrder timestamp)) }
    | _ => none
  | .start built systemPrompt text =>
    match s.turn, built.or s.loop with
    | .loaded session, some (cfg, loop) => s.start session cfg loop systemPrompt text
    | _, _ => none
  | .loop a =>
    match s.loop with
    | some (cfg, loop) => if s.turn.admits a then s.stepLoop cfg loop s.turn a else none
    | none => none
  | .ensureSession =>
    match s.turn with
    | .persisting next => some { s with rows := some (s.rows.getD []), turn := .saving next }
    | _ => none
  | .saveMessages =>
    match s.turn, s.loop with
    | .saving next, some (_, loop) =>
      let saved := messagesWithoutSystem loop.history
      some { s with rows := s.rows.map fun _ => saved, turn := next.point }
    | _, _ => none
  | .persistFails =>
    match s.turn with
    | .persisting next | .saving next => some { s with turn := next.point }
    | _ => none
  | .replied =>
    match s.turn with
    | .replying => some { s with turn := .idle }
    | _ => none
  | .replyRaised =>
    match s.turn with
    | .replying => some { s with turn := .persisting .stop }
    | _ => none
  | .giveUp =>
    match s.turn with
    | .idle | .running => none
    | _ => some { s with turn := .idle }
  | .ensureRecord r =>
    if r.content.isSome then
      some { s with rows := some (s.rows.getD []), recording := r :: s.recording }
    else none
  | .addRecord r =>
    match r.content with
    | some content =>
      if r ∈ s.recording then
        some { s with
          rows := s.rows.map fun rows => rows ++ [recordMessage s.nextId content]
          nextId := s.nextId + 1
          recording := s.recording.erase r }
      else none
    | none => none
  | .recordFails r =>
    if r ∈ s.recording then some { s with recording := s.recording.erase r } else none

def machine (timestamp : Nat → Int) : Machine ChatState Action := ⟨step timestamp⟩

end NeuralHub.Feishu
