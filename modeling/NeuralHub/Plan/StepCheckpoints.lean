/-
NeuralHub.Plan.StepCheckpoints — the names under which a plan keeps what its
steps said: `generate_plan_name` of `plan_store.py` and
`plan_step_checkpoint.py`.

A step has a session of its own in the session store. Its id is made of the
ids of the session and the step and the name of the plan; a long id is
replaced by the first characters of its SHA-256 digest, and `digest`
stands for that function.

Two steps of one session have one short id only when they are the same step
of plans of one name (`makeStepSessionId_injective`). Restoring keeps every
message but tool messages, and adds none of the past.
-/
import NeuralHub.AgentLoop.MessageHistory
import NeuralHub.Lib.Json

namespace NeuralHub.Plan

open NeuralHub.Lib NeuralHub.AgentLoop

/-! ## Names of plans -/

def adjectives : List String :=
  ["brisk", "calm", "clear", "cosmic", "lunar", "prime", "rapid", "solid"]

def verbs : List String := ["mapping", "plotting", "shaping", "sorting", "tracing", "weaving"]

def nouns : List String := ["anchor", "bridge", "matrix", "signal", "vector", "workflow"]

/-- `generate_plan_name`, for one of the choices it may make. -/
def generatePlanName (adjective : Fin adjectives.length) (verb : Fin verbs.length)
    (noun : Fin nouns.length) : String :=
  "-".intercalate [adjectives.get adjective, verbs.get verb, nouns.get noun]

/-! ## Ids of sessions -/

/-- `MAX_STEP_SESSION_ID_LENGTH`. -/
def maxStepSessionIdLength : Nat := 64

def rawStepSessionId (sessionId planName : String) (stepId : Int) : String :=
  sessionId ++ "-plan-" ++ planName ++ "-step-" ++ toString stepId

/-- `make_step_session_id`. -/
def makeStepSessionId (digest : String → String) (sessionId planName : String) (stepId : Int) :
    String :=
  let raw := rawStepSessionId sessionId planName stepId
  if raw.length ≤ maxStepSessionIdLength then raw
  else "plan-step-" ++ String.ofList ((digest raw).toList.take 16) ++ "-" ++ toString stepId

/-- Behind the last `p` stands the number. -/
theorem rawStepSessionId_injective {sessionId planName planName' : String} {stepId stepId' : Int}
    (h : rawStepSessionId sessionId planName stepId = rawStepSessionId sessionId planName' stepId') :
    planName = planName' ∧ stepId = stepId' := by
  have hraw : ∀ (name : String) (id : Int), (rawStepSessionId sessionId name id).toList =
      (sessionId.toList ++ "-plan-".toList) ++ name.toList ++ "-ste".toList ++
        'p' :: '-' :: decimal id := by
    intro name id
    unfold rawStepSessionId
    simp only [String.toList_append, toList_toString]
    simp
  have hnumber : ∀ id : Int, 'p' ∉ '-' :: decimal id := by
    intro id hmem
    rcases List.mem_cons.mp hmem with h | h
    · exact absurd h (by decide)
    · exact absurd (floatChar_decimal id 'p' h) (by decide)
  have hlist := congrArg String.toList h
  rw [hraw, hraw] at hlist
  obtain ⟨hfront, hback⟩ := append_separator_injective (hnumber stepId) (hnumber stepId') hlist
  constructor
  · have hname := List.append_cancel_left (List.append_cancel_right hfront)
    exact String.ext_iff.mpr hname
  · exact decimal_injective (List.cons.inj hback).2

/-- As long as the ids are short, they keep the steps of a session apart. -/
theorem makeStepSessionId_injective {digest : String → String} {sessionId planName planName' : String}
    {stepId stepId' : Int}
    (hshort : (rawStepSessionId sessionId planName stepId).length ≤ maxStepSessionIdLength)
    (hshort' : (rawStepSessionId sessionId planName' stepId').length ≤ maxStepSessionIdLength)
    (h : makeStepSessionId digest sessionId planName stepId =
      makeStepSessionId digest sessionId planName' stepId') :
    planName = planName' ∧ stepId = stepId' := by
  unfold makeStepSessionId at h
  dsimp only at h
  rw [if_pos hshort, if_pos hshort'] at h
  exact rawStepSessionId_injective h

/-! ## Preparing a step -/

/-- `_checkpoint_system_prompt`: without a system prompt it is the first of the skill messages. -/
def checkpointSystemPrompt (systemPrompt skillPrompt stepPrompt : String) : String :=
  if systemPrompt ≠ "" then systemPrompt
  else
    match [skillPrompt, stepPrompt].filter (· ≠ "") with
    | [] => ""
    | prompt :: _ => "<skill_context>\n" ++ prompt ++ "\n</skill_context>"

def systemMessage (id : Nat) (content : String) : Message := { id, role := .system, content }

/-- `_restore_step_messages`; `id` is the first id of the messages it makes. -/
def restoreStepMessages (id : Nat) (prompt : String) (messages : List Message) : List Message :=
  let restored :=
    if prompt ≠ "" ∧ messages.head?.map (·.role) ≠ some .system then
      systemMessage id prompt :: messages
    else messages
  sanitizeMessageHistory (id + 1) restored

/-- `prepare_step_checkpoint`: what is kept for the step from now on, and the history it begins
with. -/
def prepareStepCheckpoint (id : Nat) (prompt : String) (existing : List Message) :
    List Message × List Message :=
  if existing ≠ [] then (existing, restoreStepMessages id prompt existing)
  else if prompt ≠ "" then ([systemMessage id prompt], [systemMessage id prompt])
  else (existing, [])

/-- A step has always a prompt of its own, so there is something to keep. -/
theorem checkpointSystemPrompt_ne_empty (systemPrompt skillPrompt : String) {stepPrompt : String}
    (h : stepPrompt ≠ "") : checkpointSystemPrompt systemPrompt skillPrompt stepPrompt ≠ "" := by
  unfold checkpointSystemPrompt
  split
  · assumption
  · split
    · rename_i hnone
      have hmem : stepPrompt ∈ [skillPrompt, stepPrompt].filter (· ≠ "") := by simp [h]
      rw [hnone] at hmem
      cases hmem
    · intro hempty
      have hlength := congrArg String.length hempty
      simp [String.length_append] at hlength

/-! ## What is restored -/

variable {messages rest : List Message} {m : Message} {id index : Nat} {consumed : List Nat}

theorem mem_sanitizeFrom (hrest : ∀ m ∈ rest, m ∈ messages)
    (h : m ∈ sanitizeFrom messages id index consumed rest) : m ∈ messages ∨ id ≤ m.id := by
  induction rest generalizing id index consumed with
  | nil => cases h
  | cons head rest ih =>
    have htail : ∀ m ∈ rest, m ∈ messages := fun m hm => hrest m (List.mem_cons_of_mem _ hm)
    rw [sanitizeFrom] at h
    split at h
    · exact ih htail h
    · split at h
      · exact ih htail h
      · split at h
        · split at h
          · rcases List.mem_cons.mp h with rfl | h
            · exact Or.inl (hrest m List.mem_cons_self)
            rcases List.mem_cons.mp h with rfl | h
            · exact Or.inr (Nat.le_refl id)
            · exact (ih htail h).imp_right fun hle => Nat.le_of_succ_le hle
          · rename_i t found hfind
            rcases List.mem_cons.mp h with rfl | h
            · exact Or.inl (hrest m List.mem_cons_self)
            rcases List.mem_cons.mp h with rfl | h
            · exact Or.inl (List.fst_mem_of_mem_zipIdx (findMatchingToolMessage_eq_some hfind).1)
            · exact ih htail h
        · rcases List.mem_cons.mp h with rfl | h
          · exact Or.inl (hrest m List.mem_cons_self)
          · exact ih htail h

/-- What is restored was kept, or is new. -/
theorem mem_restoreStepMessages {prompt : String} (h : m ∈ restoreStepMessages id prompt messages) :
    m ∈ messages ∨ id ≤ m.id := by
  unfold restoreStepMessages sanitizeMessageHistory at h
  dsimp only at h
  split at h
  · rcases mem_sanitizeFrom (fun _ hm => hm) h with hm | hle
    · rcases List.mem_cons.mp hm with rfl | hm
      · exact Or.inr (Nat.le_refl id)
      · exact Or.inl hm
    · exact Or.inr (Nat.le_of_succ_le hle)
  · exact (mem_sanitizeFrom (fun _ hm => hm) h).imp_right fun hle => Nat.le_of_succ_le hle

/-- Every message but a tool message is restored. -/
theorem mem_restoreStepMessages_of_mem {prompt : String} (hm : m ∈ messages)
    (htool : m.isTool = false) : m ∈ restoreStepMessages id prompt messages := by
  have hkept : ∀ restored : List Message, m ∈ restored →
      m ∈ sanitizeMessageHistory (id + 1) restored := by
    intro restored hmem
    have hfilter : (sanitizeMessageHistory (id + 1) restored).filter (fun m => !m.isTool) =
        restored.filter fun m => !m.isTool :=
      filter_sanitizeFrom rfl fun i hi => absurd hi List.not_mem_nil
    have hmem' : m ∈ restored.filter fun m => !m.isTool :=
      List.mem_filter.mpr ⟨hmem, by rw [htool]; rfl⟩
    rw [← hfilter] at hmem'
    exact (List.mem_filter.mp hmem').1
  unfold restoreStepMessages
  dsimp only
  split
  · exact hkept _ (List.mem_cons_of_mem _ hm)
  · exact hkept _ hm

end NeuralHub.Plan
