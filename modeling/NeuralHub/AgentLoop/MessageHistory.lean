/-
NeuralHub.AgentLoop.MessageHistory — `sanitize_message_history`, through
which every history goes before it is sent or restored.

It copies all messages but the tool messages, and puts behind each
assistant message with calls the first tool message further on that covers
its calls and is not used yet, or a new one with an error for each call.

`coverPairing` is `toolPairing` with "covers" for "has exactly the ids":
a result that nobody asked for may stay. What comes out is paired in this
sense (`coverPaired_sanitizeFrom`), what is paired goes through unchanged
(`sanitizeFrom_of_paired`), and no tool message is used twice, since the
places of those that are used are marked (`Used`).
-/
import NeuralHub.AgentLoop.Messages
import Mathlib.Data.List.Nodup
import Mathlib.Data.List.Perm.Subperm

namespace NeuralHub.AgentLoop

open NeuralHub.Lib

/-! ## The function -/

/-- `expected_ids.issubset(actual_ids)`. -/
def Message.covers (t m : Message) : Bool :=
  (callIds m.toolCalls).all fun id => (resultIds t.toolResults).contains id

/-- `_find_matching_tool_message_index`, with the message at that index. -/
def findMatchingToolMessage (messages : List Message) (start : Nat) (assistant : Message)
    (consumed : List Nat) : Option (Message × Nat) :=
  if assistant.toolCalls = [] then none
  else
    ((messages.drop start).zipIdx start).find? fun candidate =>
      !consumed.contains candidate.2 && candidate.1.isTool && !candidate.1.toolResults.isEmpty &&
        candidate.1.covers assistant

/-- `_build_orphan_tool_message`. -/
def buildOrphanToolMessage (id : Nat) (m : Message) : Message := .tool id (buildOrphanToolResults m)

/-- The loop of `sanitize_message_history`: `messages` is the whole list,
and the last argument what is left of it from `index` on. -/
def sanitizeFrom (messages : List Message) (id index : Nat) (consumed : List Nat) :
    List Message → List Message
  | [] => []
  | m :: rest =>
    if consumed.contains index then sanitizeFrom messages id (index + 1) consumed rest
    else if m.isTool then sanitizeFrom messages id (index + 1) consumed rest
    else if m.calling then
      match findMatchingToolMessage messages (index + 1) m consumed with
      | none =>
        m :: buildOrphanToolMessage id m :: sanitizeFrom messages (id + 1) (index + 1) consumed rest
      | some (t, found) => m :: t :: sanitizeFrom messages id (index + 1) (found :: consumed) rest
    else m :: sanitizeFrom messages id (index + 1) consumed rest

/-- `sanitize_message_history`; `id` is the first of the ids of the messages it makes. -/
def sanitizeMessageHistory (id : Nat) (messages : List Message) : List Message :=
  sanitizeFrom messages id 0 [] messages

/-! ## Covered calls -/

/-- Tool calls and tool messages that cover them. -/
def coverPairing : Pairing Message where
  opens := Message.calling
  closes := Message.isTool
  answers m t := t.covers m = true
  disjoint := toolPairing.disjoint

variable {messages rest : List Message} {m t : Message} {id index found : Nat} {consumed : List Nat}

theorem covers_iff :
    t.covers m = true ↔ ∀ callId ∈ callIds m.toolCalls, callId ∈ resultIds t.toolResults := by
  simp [Message.covers]

theorem covers_buildOrphanToolMessage (id : Nat) (m : Message) :
    (buildOrphanToolMessage id m).covers m = true := by
  rw [covers_iff]
  intro callId hcall
  simpa [buildOrphanToolMessage, Message.tool] using hcall

/-- Results that cover a call are there. -/
theorem toolResults_ne_nil_of_covers (h : t.covers m = true) (hm : m.calling = true) :
    t.toolResults ≠ [] := by
  obtain ⟨call, calls, hcalls⟩ := List.exists_cons_of_ne_nil (Message.calling_iff.mp hm).2
  intro hnil
  have hmem := covers_iff.mp h call.id (by simp [callIds, hcalls])
  simp [hnil] at hmem

theorem findMatchingToolMessage_eq_some {start : Nat}
    (h : findMatchingToolMessage messages start m consumed = some (t, found)) :
    (t, found) ∈ messages.zipIdx ∧ found ∉ consumed ∧ t.isTool = true ∧ t.covers m = true := by
  unfold findMatchingToolMessage at h
  split at h
  · cases h
  · have hmem : (t, found) ∈ messages.zipIdx := by
      obtain ⟨hle, hget⟩ := List.mem_zipIdx_iff_le_and_getElem?_sub.mp (List.mem_of_find?_eq_some h)
      rw [List.getElem?_drop, Nat.add_sub_cancel' hle] at hget
      exact List.mem_zipIdx_iff_getElem?.mpr hget
    have hfound := List.find?_some h
    simp only [Bool.and_eq_true, Bool.not_eq_true', List.contains_eq_mem,
      decide_eq_false_iff_not] at hfound
    exact ⟨hmem, hfound.1.1.1, hfound.1.1.2, hfound.2⟩

/-! ## What comes out -/

/-- Every call is covered by the next message, and every tool message covers calls. -/
theorem coverPaired_sanitizeFrom (messages rest : List Message) (id index : Nat)
    (consumed : List Nat) : coverPairing.Paired (sanitizeFrom messages id index consumed rest) := by
  induction rest generalizing id index consumed with
  | nil => exact .nil
  | cons m rest ih =>
    rw [sanitizeFrom]
    split
    · exact ih id (index + 1) consumed
    · split
      · exact ih id (index + 1) consumed
      · rename_i htool
        split
        · rename_i hcall
          split
          · exact .pair hcall rfl (covers_buildOrphanToolMessage id m) (ih (id + 1) (index + 1) consumed)
          · rename_i t found hfind
            obtain ⟨-, -, ht, hcovers⟩ := findMatchingToolMessage_eq_some hfind
            exact .pair hcall ht hcovers (ih id (index + 1) (found :: consumed))
        · rename_i hcall
          exact .other (Bool.not_eq_true _ ▸ hcall) (Bool.not_eq_true _ ▸ htool)
            (ih id (index + 1) consumed)

/-- The marked places are places of tool messages. -/
def ToolsAt (messages : List Message) (consumed : List Nat) : Prop :=
  ∀ i ∈ consumed, ∃ t, (t, i) ∈ messages.zipIdx ∧ t.isTool = true

/-- The other messages stay as they are. -/
theorem filter_sanitizeFrom (hrest : rest = messages.drop index) (htools : ToolsAt messages consumed) :
    (sanitizeFrom messages id index consumed rest).filter (fun m => !m.isTool) =
      rest.filter fun m => !m.isTool := by
  induction rest generalizing id index consumed with
  | nil => rfl
  | cons m rest ih =>
    have hget : messages[index]? = some m := by
      rw [← List.head?_drop, ← hrest, List.head?_cons]
    have hnext : rest = messages.drop (index + 1) := by
      rw [← List.tail_drop, ← hrest, List.tail_cons]
    rw [sanitizeFrom]
    split
    · rename_i hmem
      obtain ⟨t, ht, htool⟩ := htools index (List.contains_iff_mem.mp hmem)
      have hm : m.isTool = true := by
        rw [List.mem_zipIdx_iff_getElem?, hget] at ht
        exact Option.some.inj ht ▸ htool
      simp [ih hnext htools, hm]
    · split
      · rename_i hm
        simp [ih hnext htools, hm]
      · rename_i hm
        split
        · split
          · simp [ih hnext htools, hm, buildOrphanToolMessage]
          · rename_i t found hfind
            obtain ⟨hplace, -, ht, -⟩ := findMatchingToolMessage_eq_some hfind
            have htools' : ToolsAt messages (found :: consumed) := by
              intro i hi
              rcases List.mem_cons.mp hi with rfl | hi
              · exact ⟨t, hplace, ht⟩
              · exact htools i hi
            simp [ih hnext htools', hm, ht]
        · simp [ih hnext htools, hm]

/-- The tool messages of a result: those at the places `used` of the list,
and those that were made. -/
structure Used (messages out : List Message) (consumed : List Nat) (used : List (Message × Nat))
    (built : List Message) : Prop where
  tools : (out.filter Message.isTool).Perm (used.map (·.1) ++ built)
  places : (used.map (·.2)).Nodup
  mem : ∀ u ∈ used, u ∈ messages.zipIdx ∧ u.2 ∉ consumed ∧ u.1.isTool = true
  built : ∀ t ∈ built, ∃ id m, m ∈ messages ∧ m.calling = true ∧ t = buildOrphanToolMessage id m

theorem used_sanitizeFrom (rest : List Message) (id index : Nat) (consumed : List Nat)
    (hrest : rest ⊆ messages) :
    ∃ used built, Used messages (sanitizeFrom messages id index consumed rest) consumed used built := by
  induction rest generalizing id index consumed with
  | nil => exact ⟨[], [], by simp [sanitizeFrom], by simp, by simp, by simp⟩
  | cons m rest ih =>
    obtain ⟨hm, hrest⟩ := List.cons_subset.mp hrest
    rw [sanitizeFrom]
    split
    · exact ih id (index + 1) consumed hrest
    · split
      · exact ih id (index + 1) consumed hrest
      · rename_i htool
        split
        · rename_i hcall
          split
          · obtain ⟨used, built, h⟩ := ih (id + 1) (index + 1) consumed hrest
            refine ⟨used, buildOrphanToolMessage id m :: built, ?_, h.places, h.mem, ?_⟩
            · rw [List.filter_cons_of_neg htool, List.filter_cons_of_pos rfl]
              exact (h.tools.cons _).trans List.perm_middle.symm
            · intro t ht
              rcases List.mem_cons.mp ht with rfl | ht
              · exact ⟨id, m, hm, hcall, rfl⟩
              · exact h.built t ht
          · rename_i t found hfind
            obtain ⟨hplace, hfresh, ht, -⟩ := findMatchingToolMessage_eq_some hfind
            obtain ⟨used, built, h⟩ := ih id (index + 1) (found :: consumed) hrest
            refine ⟨(t, found) :: used, built, ?_, ?_, ?_, h.built⟩
            · rw [List.filter_cons_of_neg htool, List.filter_cons_of_pos ht]
              exact h.tools.cons t
            · refine List.nodup_cons.mpr ⟨fun hmem => ?_, h.places⟩
              obtain ⟨u, hu, rfl⟩ := List.mem_map.mp hmem
              exact (h.mem u hu).2.1 List.mem_cons_self
            · intro u hu
              rcases List.mem_cons.mp hu with rfl | hu
              · exact ⟨hplace, hfresh, ht⟩
              · obtain ⟨hmem, hnot, htool⟩ := h.mem u hu
                exact ⟨hmem, fun hin => hnot (List.mem_cons_of_mem found hin), htool⟩
        · obtain ⟨used, built, h⟩ := ih id (index + 1) consumed hrest
          refine ⟨used, built, ?_, h.places, h.mem, h.built⟩
          rw [List.filter_cons_of_neg htool]
          exact h.tools

/-- No tool message of the list is used twice. -/
theorem Used.subperm {out : List Message} {used : List (Message × Nat)} {built : List Message}
    (h : Used messages out consumed used built) :
    (used.map (·.1)).Subperm (messages.filter Message.isTool) := by
  have hzip : ((messages.zipIdx.filter fun u => u.1.isTool).map (·.1)) =
      messages.filter Message.isTool := by
    conv_rhs => rw [← List.zipIdx_map_fst 0 messages, List.filter_map]
    rfl
  have hnd : used.Nodup := List.Nodup.of_map _ h.places
  have hplaces : used.Subperm (messages.zipIdx.filter fun u => u.1.isTool) :=
    List.subperm_of_subset hnd fun u hu => List.mem_filter.mpr ⟨(h.mem u hu).1, (h.mem u hu).2.2⟩
  obtain ⟨chosen, hperm, hsub⟩ := hplaces
  exact hzip ▸ ⟨chosen.map (·.1), hperm.map _, hsub.map _⟩

/-! ## What goes through unchanged -/

/-- A covered call finds the message behind it. -/
theorem findMatchingToolMessage_next (hrest : t :: rest = messages.drop index)
    (hm : m.calling = true) (ht : t.isTool = true) (hcovers : t.covers m = true)
    (hconsumed : index ∉ consumed) :
    findMatchingToolMessage messages index m consumed = some (t, index) := by
  have hresults : t.toolResults ≠ [] := toolResults_ne_nil_of_covers hcovers hm
  rw [findMatchingToolMessage, if_neg (Message.calling_iff.mp hm).2, ← hrest,
    List.zipIdx_cons]
  simp [hconsumed, ht, hcovers, hresults]

/-- What is paired goes through unchanged. -/
theorem sanitizeFrom_of_paired (hrest : rest = messages.drop index) (h : coverPairing.Paired rest)
    (hconsumed : ∀ i ∈ consumed, i < index) :
    sanitizeFrom messages id index consumed rest = rest := by
  induction h generalizing index consumed with
  | nil => rfl
  | @other m rest ho hc _ ih =>
    have hnext : rest = messages.drop (index + 1) := by
      rw [← List.tail_drop, ← hrest, List.tail_cons]
    have hnot : index ∉ consumed := fun hmem => Nat.lt_irrefl _ (hconsumed index hmem)
    have hcall : m.calling = false := ho
    have htool : m.isTool = false := hc
    simp only [sanitizeFrom, List.contains_eq_mem, hnot, hcall, htool, decide_false,
      Bool.false_eq_true, if_false]
    rw [ih hnext fun i hi => Nat.lt_succ_of_lt (hconsumed i hi)]
  | @pair m t rest ho hc ha _ ih =>
    have hnext : t :: rest = messages.drop (index + 1) := by
      rw [← List.tail_drop, ← hrest, List.tail_cons]
    have hlast : rest = messages.drop (index + 1 + 1) := by
      rw [← List.tail_drop, ← hnext, List.tail_cons]
    have hnot : index ∉ consumed := fun hmem => Nat.lt_irrefl _ (hconsumed index hmem)
    have hbehind : index + 1 ∉ consumed := fun hmem =>
      Nat.not_succ_lt_self (hconsumed (index + 1) hmem)
    have hcall : m.calling = true := ho
    have htool : m.isTool = false := coverPairing.disjoint m ho
    have hfind := findMatchingToolMessage_next hnext ho hc ha hbehind
    rw [sanitizeFrom]
    simp only [List.contains_eq_mem, hnot, hcall, htool, hfind, decide_false, Bool.false_eq_true,
      if_false, if_true]
    -- the tool message behind the call is marked, so the loop passes it
    rw [sanitizeFrom]
    simp only [List.contains_eq_mem, List.mem_cons_self, decide_true, if_true]
    rw [ih hlast]
    intro i hi
    rcases List.mem_cons.mp hi with rfl | hi
    · exact Nat.lt_succ_self _
    · exact Nat.lt_of_lt_of_le (hconsumed i hi) (Nat.le_add_right index 2)

/-! ## Well-formed tool turns -/

/-- **What is sent has well-formed tool turns**: each assistant message with
calls is directly followed by one tool message that covers them and there
is no other tool message, all other messages are as they were, no tool
message is used twice, and a list of this shape is left alone. -/
theorem sanitizeMessageHistory_turns (id : Nat) (messages : List Message) :
    coverPairing.Adjacent (sanitizeMessageHistory id messages) ∧
    (sanitizeMessageHistory id messages).filter (fun m => !m.isTool) =
      messages.filter (fun m => !m.isTool) ∧
    (∃ used built, ((sanitizeMessageHistory id messages).filter Message.isTool).Perm (used ++ built) ∧
      used.Subperm (messages.filter Message.isTool) ∧
      ∀ t ∈ built, ∃ id m, m ∈ messages ∧ m.calling = true ∧ t = buildOrphanToolMessage id m) ∧
    (coverPairing.Adjacent messages → sanitizeMessageHistory id messages = messages) := by
  refine ⟨(coverPaired_sanitizeFrom messages messages id 0 []).adjacent, ?_, ?_, ?_⟩
  · have htools : ToolsAt messages [] := fun i hi => by cases hi
    exact filter_sanitizeFrom rfl htools
  · obtain ⟨used, built, h⟩ := used_sanitizeFrom messages id 0 [] (List.Subset.refl messages)
    exact ⟨_, built, h.tools, h.subperm, h.built⟩
  · intro hadjacent
    exact sanitizeFrom_of_paired rfl hadjacent.paired fun i hi => by cases hi

-- results that come late are taken to their call, and a call without results gets an error
example : (sanitizeMessageHistory 9
    [{ id := 0, role := .assistant, content := "", toolCalls := [⟨"a", "Read", "{}"⟩] },
      { id := 1, role := .assistant, content := "", toolCalls := [⟨"b", "Read", "{}"⟩] },
      .tool 2 [{ toolCallId := "a", output := "x" }]]).map (·.id) = [0, 2, 1, 9] := by decide

end NeuralHub.AgentLoop
