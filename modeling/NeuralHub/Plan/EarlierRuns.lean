/-
NeuralHub.Plan.EarlierRuns — the runs of one session: what a run finds of
the runs before it.

A run draws its name from a small pool. The results of its steps lie in the
directory of the session and the name, and the messages of a step under an
id made of both and the id of the step. So a run inherits nothing as long
as no result has been recorded under its name, and no earlier run has
prepared a step with the session id of one of its steps
(`inheritsNothing_iff`).

The runs are those of `Plan.StepResults`, one after the other. A new one
may begin at any time, wherever the last one is. Inside a run an agent step
is prepared when its loop is made, and every message of the loop is kept
from then on. A message is known by its id, and ids are handed out in
order, so those below `firstId` are of earlier runs.
-/
import Mathlib.Logic.Function.Basic
import NeuralHub.Plan.StepCheckpoints
import NeuralHub.Plan.StepResults

namespace NeuralHub.Plan

open NeuralHub.Lib NeuralHub.AgentLoop

/-! ## Sessions -/

structure SessionConfig where
  run : Config := {}
  sessionId : String
  systemPrompt : String := ""
  skillPrompt : String := ""
  /-- the SHA-256 digest of a text, in hexadecimal -/
  digest : String → String

/-- The loop of an agent step that has been prepared. -/
structure StepLoop where
  sessionId : String
  restored : List Message

structure SessionState where
  planName : String := ""
  run : State × ResultLog := (⟨{}, .returned⟩, { files := [] })
  /-- the files of the results, by the name of the plan -/
  directories : String → List StepResult := fun _ => []
  /-- the session store, by the ids of step sessions -/
  messages : String → List Message := fun _ => []
  loop : Option StepLoop := none
  nextId : Nat := 0
  /-- the first message id of the run under way -/
  firstId : Nat := 0
  /-- the plan names under which results have been recorded -/
  recorded : List String := []
  /-- the steps that this run has prepared, by plan name and id -/
  prepared : List (String × Int) := []
  preparedBefore : List (String × Int) := []

inductive SessionAction
  /-- another call of `run` -/
  | newRun (adjective : Fin adjectives.length) (verb : Fin verbs.length) (noun : Fin nouns.length)
      (pauseRequested approved : Bool)
  | act (a : Action)
  /-- `prepare_step_checkpoint`, with the prompt of the step -/
  | prepare (stepPrompt : String)
  /-- `make_step_checkpoint_fn`: the loop of the step has a new message -/
  | checkpoint (m : Message)

def stepSession (cfg : SessionConfig) (key : String × Int) : String :=
  makeStepSessionId cfg.digest cfg.sessionId key.1 key.2

namespace SessionState

/-- The plan name and the id of the step under way. -/
def stepKey (x : SessionState) : String × Int := (x.planName, x.run.1.runner.currentStepId)

def newRun (x : SessionState) (planName : String) (pauseRequested approved : Bool) : SessionState :=
  { x with
    planName
    run := (⟨{ pauseRequested, approved }, .idle⟩,
      { files := x.directories planName, requests := x.run.2.requests })
    loop := none
    firstId := x.nextId
    prepared := []
    preparedBefore := x.preparedBefore ++ x.prepared }

/-- The run has gone on, and the loop is there as long as the step runs. -/
def goOn (x : SessionState) (y : State × ResultLog) : SessionState :=
  { x with
    run := y
    directories := Function.update x.directories x.planName y.2.files
    loop := match y.1.point with | .running _ => x.loop | _ => none
    recorded := if y.2.requests = x.run.2.requests then x.recorded else x.recorded ++ [x.planName] }

/-- An agent step is under way that has no loop yet. -/
def unprepared (x : SessionState) : Bool :=
  match x.run.1.point, findPlanStep x.run.1.runner.plan x.run.1.runner.currentStepId with
  | .running _, some planStep => planStep.type == .agentStep && x.loop.isNone
  | _, _ => false

def prepare (cfg : SessionConfig) (x : SessionState) (stepPrompt : String) : SessionState :=
  let sessionId := stepSession cfg x.stepKey
  let prompt := checkpointSystemPrompt cfg.systemPrompt cfg.skillPrompt stepPrompt
  let begun := prepareStepCheckpoint x.nextId prompt (x.messages sessionId)
  { x with
    messages := Function.update x.messages sessionId begun.1
    loop := some { sessionId, restored := begun.2 }
    nextId := x.nextId + begun.1.length + 2
    prepared := x.prepared ++ [x.stepKey] }

def checkpoint (x : SessionState) (loop : StepLoop) (m : Message) : SessionState :=
  { x with
    messages := Function.update x.messages loop.sessionId
      (x.messages loop.sessionId ++ [{ m with id := x.nextId }])
    nextId := x.nextId + 1 }

end SessionState

/-- The prompt of a step is never empty: it begins with the text of a template. -/
def sessionMachine (cfg : SessionConfig) : Machine SessionState SessionAction where
  step x
    | .newRun adjective verb noun pauseRequested approved =>
      some (x.newRun (generatePlanName adjective verb noun) pauseRequested approved)
    | .act a => ((resultsMachine cfg.run).step x.run a).map x.goOn
    | .prepare stepPrompt =>
      if x.unprepared = true ∧ stepPrompt ≠ "" then some (x.prepare cfg stepPrompt) else none
    | .checkpoint m => x.loop.map fun loop => x.checkpoint loop m

/-- The execution began without results, and the step under way with no message of an earlier
run. -/
def InheritsNothing (x : SessionState) : Prop :=
  x.run.2.loaded = [] ∧ ∀ loop ∈ x.loop, ∀ m ∈ loop.restored, x.firstId ≤ m.id

/-- The condition: when the execution begins, nothing has been recorded under the name, and when
a step is prepared, no earlier run has prepared one with its session id. -/
def nothingEarlier (cfg : SessionConfig) (x : SessionState) : SessionAction → Prop
  | .act a => x.run.1.point = .planApproved → a = .answer .done → x.planName ∉ x.recorded
  | .prepare _ => ∀ key ∈ x.preparedBefore, stepSession cfg key ≠ stepSession cfg x.stepKey
  | _ => True

instance decidableNothingEarlier (cfg : SessionConfig) (x : SessionState) :
    ∀ a, Decidable (nothingEarlier cfg x a)
  | .act _ => inferInstanceAs (Decidable (_ → _ → _))
  | .prepare _ => inferInstanceAs (Decidable (∀ key ∈ x.preparedBefore, _))
  | .newRun .. => inferInstanceAs (Decidable True)
  | .checkpoint _ => inferInstanceAs (Decidable True)

/-! ## Steps of a run -/

variable {cfg : Config} {x y : State × ResultLog} {a : Action}

theorem storeAnswer_of_planApproved (h : x.1.point = .planApproved) : storeAnswer x a = a := by
  unfold storeAnswer refusesResult
  rw [h, if_neg fun hand => Bool.false_ne_true hand.2]

/-- The list is read when the execution begins, and at no other time. -/
theorem loaded_step (h : (resultsMachine cfg).step x a = some y) :
    y.2.loaded = if x.1.point = .planApproved ∧ a = .answer .done then listStepResults x.2.files
      else x.2.loaded := by
  obtain ⟨t, -, rfl⟩ := Option.map_eq_some_iff.mp h
  dsimp only
  split
  · rename_i hload
    obtain ⟨hpoint, rfl⟩ := hload
    rw [storeAnswer_of_planApproved hpoint]
    unfold updateLog
    rw [hpoint]
    rfl
  · rename_i hload
    unfold updateLog
    split
    · rename_i hpoint hanswer
      rw [storeAnswer_of_planApproved hpoint] at hanswer
      exact absurd ⟨hpoint, hanswer⟩ hload
    · split <;> rfl
    · unfold ResultLog.record
      split <;> rfl
    · rfl

/-- A result is recorded in a file. -/
theorem files_step (h : (resultsMachine cfg).step x a = some y) :
    (y.2.requests = x.2.requests ∧ y.2.files = x.2.files) ∨
      (y.2.requests ≠ x.2.requests ∧ y.2.files ≠ []) := by
  obtain ⟨t, -, rfl⟩ := Option.map_eq_some_iff.mp h
  dsimp only
  unfold updateLog
  split
  · exact Or.inl ⟨rfl, rfl⟩
  · split
    · exact Or.inl ⟨rfl, rfl⟩
    · exact Or.inl ⟨rfl, rfl⟩
  · rename_i index hpoint hanswer
    unfold ResultLog.record
    split
    · exact Or.inl ⟨rfl, rfl⟩
    · rename_i planStep hcontext
      have hstorable : storableId x.1.runner.currentStepId = true :=
        storableId_of_recording hpoint hanswer (by rw [hcontext]; exact Option.some_ne_none _)
      refine Or.inr ⟨Nat.succ_ne_self _, ?_⟩
      dsimp only
      rw [writeStepResult, if_pos hstorable, Option.getD_some, upsertStepResult]
      simp
  · exact Or.inl ⟨rfl, rfl⟩

/-! ## What is kept along the runs -/

/-- What the files and the session store say about the past. -/
structure Keeps (cfg : SessionConfig) (x : SessionState) : Prop where
  files : x.run.2.files = x.directories x.planName
  recorded : ∀ name, name ∈ x.recorded ↔ x.directories name ≠ []
  firstId : x.firstId ≤ x.nextId
  ids : ∀ sessionId, ∀ m ∈ x.messages sessionId, m.id < x.nextId
  /-- the messages of a step that was prepared do not begin with a result -/
  begun : ∀ key ∈ x.preparedBefore ++ x.prepared, ∃ m ∈ x.messages (stepSession cfg key),
    m.isTool = false
  begunBefore : ∀ key ∈ x.preparedBefore, ∃ m ∈ x.messages (stepSession cfg key),
    m.isTool = false ∧ m.id < x.firstId
  owned : ∀ sessionId, x.messages sessionId ≠ [] →
    ∃ key ∈ x.preparedBefore ++ x.prepared, stepSession cfg key = sessionId
  ownedBefore : ∀ sessionId, ∀ m ∈ x.messages sessionId, m.id < x.firstId →
    ∃ key ∈ x.preparedBefore, stepSession cfg key = sessionId
  loop : ∀ loop ∈ x.loop, ∃ key ∈ x.prepared, stepSession cfg key = loop.sessionId

section

variable {cfg : SessionConfig} {x : SessionState}

theorem keeps_begin : Keeps cfg {} where
  files := rfl
  recorded name := by simp
  firstId := Nat.le_refl _
  ids _ m hm := absurd hm List.not_mem_nil
  begun key hkey := absurd hkey List.not_mem_nil
  begunBefore key hkey := absurd hkey List.not_mem_nil
  owned _ hne := absurd rfl hne
  ownedBefore _ m hm := absurd hm List.not_mem_nil
  loop loop hloop := by cases hloop

theorem Keeps.newRun (h : Keeps cfg x) (planName : String) (pauseRequested approved : Bool) :
    Keeps cfg (x.newRun planName pauseRequested approved) where
  files := rfl
  recorded := h.recorded
  firstId := Nat.le_refl _
  ids := h.ids
  begun key hkey := h.begun key (by simpa [SessionState.newRun] using hkey)
  begunBefore key hkey := by
    obtain ⟨m, hm, htool⟩ := h.begun key hkey
    exact ⟨m, hm, htool, h.ids _ m hm⟩
  owned sessionId hne := by
    obtain ⟨key, hkey, hid⟩ := h.owned sessionId hne
    exact ⟨key, by simpa [SessionState.newRun] using hkey, hid⟩
  ownedBefore sessionId m hm _ := h.owned sessionId (List.ne_nil_of_mem hm)
  loop loop hloop := by cases hloop

/-- A run that goes on has the loop that was prepared, or none. -/
theorem mem_loop_goOn {y : State × ResultLog} {loop : StepLoop} (h : loop ∈ (x.goOn y).loop) :
    loop ∈ x.loop := by
  unfold SessionState.goOn at h
  dsimp only at h
  split at h
  · exact h
  · cases h

/-- A result that is recorded lies in the directory of the run's name. -/
theorem Keeps.goOn (h : Keeps cfg x) {a : Action} {y : State × ResultLog}
    (hstep : (resultsMachine cfg.run).step x.run a = some y) : Keeps cfg (x.goOn y) where
  files := by
    unfold SessionState.goOn
    dsimp only
    rw [Function.update_self]
  recorded name := by
    unfold SessionState.goOn
    dsimp only
    rcases files_step hstep with ⟨hrequests, hfiles⟩ | ⟨hrequests, hfiles⟩
    · rw [if_pos hrequests, hfiles, h.files, Function.update_eq_self]
      exact h.recorded name
    · rw [if_neg hrequests, List.mem_append, List.mem_singleton]
      by_cases hname : name = x.planName
      · rw [hname, Function.update_self]
        exact iff_of_true (Or.inr rfl) hfiles
      · rw [Function.update_of_ne hname, or_iff_left hname]
        exact h.recorded name
  firstId := h.firstId
  ids := h.ids
  begun := h.begun
  begunBefore := h.begunBefore
  owned := h.owned
  ownedBefore := h.ownedBefore
  loop loop hloop := h.loop loop (mem_loop_goOn hloop)

/-- What stays in the store: the messages `kept` take the place of those under one id. -/
theorem mem_update_of_mem {messages : String → List Message} {sessionId : String}
    {kept : List Message} (hkept : ∀ m ∈ messages sessionId, m ∈ kept) {other : String} {m : Message}
    (hm : m ∈ messages other) : m ∈ Function.update messages sessionId kept other := by
  by_cases hid : other = sessionId
  · subst hid
    rw [Function.update_self]
    exact hkept m hm
  · rw [Function.update_of_ne hid]
    exact hm

/-- The step with this session id is prepared, and its session has only new messages besides
the old ones. -/
theorem Keeps.store (h : Keeps cfg x) {sessionId : String} {kept : List Message} {nextId : Nat}
    {prepared : List (String × Int)} {loop : StepLoop}
    (hold : ∀ m ∈ x.messages sessionId, m ∈ kept)
    (hnew : ∀ m ∈ kept, m ∈ x.messages sessionId ∨ m.id = x.nextId) (hnext : x.nextId < nextId)
    (hbegun : ∃ m ∈ kept, m.isTool = false)
    (hstays : ∀ key ∈ x.prepared, key ∈ prepared)
    (hadded : ∀ key ∈ prepared, key ∈ x.prepared ∨ stepSession cfg key = sessionId)
    (howner : ∃ key ∈ prepared, stepSession cfg key = sessionId) (hloop : loop.sessionId = sessionId) :
    Keeps cfg { x with
      messages := Function.update x.messages sessionId kept
      nextId, prepared, loop := some loop } where
  files := h.files
  recorded := h.recorded
  firstId := Nat.le_trans h.firstId (Nat.le_of_lt hnext)
  ids other m hm := by
    dsimp only at hm
    by_cases hid : other = sessionId
    · rw [hid, Function.update_self] at hm
      rcases hnew m hm with hm | heq
      · exact Nat.lt_trans (h.ids _ m hm) hnext
      · exact heq ▸ hnext
    · rw [Function.update_of_ne hid] at hm
      exact Nat.lt_trans (h.ids _ m hm) hnext
  begun key hkey := by
    have hcases : key ∈ x.preparedBefore ++ x.prepared ∨ stepSession cfg key = sessionId := by
      rcases List.mem_append.mp hkey with hkey | hkey
      · exact Or.inl (List.mem_append_left _ hkey)
      · exact (hadded key hkey).imp_left (List.mem_append_right _)
    rcases hcases with hkey | hid
    · obtain ⟨m, hm, htool⟩ := h.begun key hkey
      refine ⟨m, ?_, htool⟩
      dsimp only
      exact mem_update_of_mem hold hm
    · dsimp only
      rw [hid, Function.update_self]
      exact hbegun
  begunBefore key hkey := by
    obtain ⟨m, hm, htool⟩ := h.begunBefore key hkey
    refine ⟨m, ?_, htool⟩
    dsimp only
    exact mem_update_of_mem hold hm
  owned other hne := by
    dsimp only at hne ⊢
    by_cases hid : other = sessionId
    · obtain ⟨key, hkey, howner⟩ := howner
      exact ⟨key, List.mem_append_right _ hkey, howner.trans hid.symm⟩
    · rw [Function.update_of_ne hid] at hne
      obtain ⟨key, hkey, howner⟩ := h.owned other hne
      exact ⟨key, List.mem_append.mpr ((List.mem_append.mp hkey).imp_right (hstays key)), howner⟩
  ownedBefore other m hm hlt := by
    dsimp only at hm hlt
    by_cases hid : other = sessionId
    · rw [hid, Function.update_self] at hm
      rcases hnew m hm with hm | heq
      · exact hid ▸ h.ownedBefore sessionId m hm hlt
      · exact absurd (heq ▸ hlt) (Nat.not_lt.mpr h.firstId)
    · rw [Function.update_of_ne hid] at hm
      exact h.ownedBefore other m hm hlt
  loop other hother := by
    obtain rfl := Option.some.inj (Option.mem_def.mp hother)
    exact hloop ▸ howner

theorem Keeps.checkpoint (h : Keeps cfg x) {loop : StepLoop} (hloop : x.loop = some loop)
    (m : Message) : Keeps cfg (x.checkpoint loop m) := by
  obtain ⟨key, hkey, hid⟩ := h.loop loop hloop
  obtain ⟨first, hfirst, htool⟩ := h.begun key (List.mem_append_right _ hkey)
  rw [hid] at hfirst
  have hnew : ∀ other ∈ x.messages loop.sessionId ++ [{ m with id := x.nextId }],
      other ∈ x.messages loop.sessionId ∨ other.id = x.nextId := by
    intro other hother
    rcases List.mem_append.mp hother with hother | hother
    · exact Or.inl hother
    · exact Or.inr (List.mem_singleton.mp hother ▸ rfl)
  have hstore := h.store (fun _ hm => List.mem_append_left _ hm) hnew (Nat.lt_succ_self x.nextId)
    ⟨first, List.mem_append_left _ hfirst, htool⟩ (fun _ hkey => hkey) (fun _ hkey => Or.inl hkey)
    ⟨key, hkey, hid⟩ rfl
  rw [← hloop] at hstore
  exact hstore

/-- What `prepare_step_checkpoint` keeps, with a prompt that is there. -/
theorem prepareStepCheckpoint_cases (id : Nat) {prompt : String} (hprompt : prompt ≠ "")
    (existing : List Message) :
    (existing = [] ∧ prepareStepCheckpoint id prompt existing =
        ([systemMessage id prompt], [systemMessage id prompt])) ∨
      (existing ≠ [] ∧ prepareStepCheckpoint id prompt existing =
        (existing, restoreStepMessages id prompt existing)) := by
  by_cases hnil : existing = []
  · refine Or.inl ⟨hnil, ?_⟩
    rw [prepareStepCheckpoint, if_neg (not_not_intro hnil), if_pos hprompt]
  · exact Or.inr ⟨hnil, by rw [prepareStepCheckpoint, if_pos hnil]⟩

theorem Keeps.prepare (h : Keeps cfg x) {stepPrompt : String} (hprompt : stepPrompt ≠ "") :
    Keeps cfg (x.prepare cfg stepPrompt) := by
  unfold SessionState.prepare
  dsimp only
  have howner : ∃ key ∈ x.prepared ++ [x.stepKey], stepSession cfg key = stepSession cfg x.stepKey :=
    ⟨x.stepKey, by simp, rfl⟩
  have hadded : ∀ key ∈ x.prepared ++ [x.stepKey],
      key ∈ x.prepared ∨ stepSession cfg key = stepSession cfg x.stepKey := by
    intro key hkey
    rcases List.mem_append.mp hkey with hkey | hkey
    · exact Or.inl hkey
    · exact Or.inr (List.mem_singleton.mp hkey ▸ rfl)
  rcases prepareStepCheckpoint_cases x.nextId
    (checkpointSystemPrompt_ne_empty cfg.systemPrompt cfg.skillPrompt hprompt)
    (x.messages (stepSession cfg x.stepKey)) with ⟨hnil, heq⟩ | ⟨hne, heq⟩
  · rw [heq]
    refine h.store ?_ ?_ (by omega) ⟨_, List.mem_singleton_self _, rfl⟩
      (fun _ hkey => List.mem_append_left _ hkey) hadded howner rfl
    · rw [hnil]
      exact fun m hm => absurd hm List.not_mem_nil
    · exact fun m hm => Or.inr (List.mem_singleton.mp hm ▸ rfl)
  · rw [heq]
    obtain ⟨key, hkey, hid⟩ := h.owned _ hne
    obtain ⟨first, hfirst, htool⟩ := h.begun key hkey
    rw [hid] at hfirst
    exact h.store (fun _ hm => hm) (fun _ hm => Or.inl hm) (by omega) ⟨first, hfirst, htool⟩
      (fun _ hkey => List.mem_append_left _ hkey) hadded howner rfl

/-! ## What is inherited -/

theorem InheritsNothing.newRun (planName : String) (pauseRequested approved : Bool) :
    InheritsNothing (x.newRun planName pauseRequested approved) := by
  refine ⟨rfl, fun loop hloop => ?_⟩
  cases hloop

/-- The execution begins without results, if and only if none was recorded under the name. -/
theorem Keeps.list_eq_nil_iff (h : Keeps cfg x) :
    listStepResults x.run.2.files = [] ↔ x.planName ∉ x.recorded := by
  have hnil : listStepResults x.run.2.files = [] ↔ x.run.2.files = [] := by
    simp only [List.eq_nil_iff_forall_not_mem, mem_listStepResults]
  rw [hnil, h.recorded, not_not, h.files]

/-- A step is given no message of an earlier run, if and only if none has prepared a step with
its session id. -/
theorem Keeps.restored_iff (h : Keeps cfg x) {prompt : String} (hprompt : prompt ≠ "") :
    (∀ m ∈ (prepareStepCheckpoint x.nextId prompt (x.messages (stepSession cfg x.stepKey))).2,
        x.firstId ≤ m.id) ↔
      ∀ key ∈ x.preparedBefore, stepSession cfg key ≠ stepSession cfg x.stepKey := by
  constructor
  · intro hall key hkey hid
    obtain ⟨m, hm, htool, hlt⟩ := h.begunBefore key hkey
    rw [hid] at hm
    rcases prepareStepCheckpoint_cases x.nextId hprompt
      (x.messages (stepSession cfg x.stepKey)) with ⟨hnil, -⟩ | ⟨-, heq⟩
    · exact List.ne_nil_of_mem hm hnil
    · rw [heq] at hall
      exact absurd (hall m (mem_restoreStepMessages_of_mem hm htool)) (Nat.not_le.mpr hlt)
  · intro hnone m hm
    rcases prepareStepCheckpoint_cases x.nextId hprompt
      (x.messages (stepSession cfg x.stepKey)) with ⟨-, heq⟩ | ⟨-, heq⟩
    · rw [heq] at hm
      rw [List.mem_singleton.mp hm]
      exact h.firstId
    · rw [heq] at hm
      rcases mem_restoreStepMessages hm with hm | hle
      · by_contra hlt
        obtain ⟨key, hkey, hid⟩ := h.ownedBefore _ m hm (Nat.not_le.mp hlt)
        exact hnone key hkey hid
      · exact Nat.le_trans h.firstId hle

/-- Short ids say which step it was. -/
theorem nothingEarlier_prepare_iff {stepPrompt : String}
    (hshort : ∀ key ∈ x.stepKey :: x.preparedBefore,
      (rawStepSessionId cfg.sessionId key.1 key.2).length ≤ maxStepSessionIdLength) :
    nothingEarlier cfg x (.prepare stepPrompt) ↔ x.stepKey ∉ x.preparedBefore := by
  constructor
  · exact fun hnone hmem => hnone x.stepKey hmem rfl
  · intro hnew key hkey hid
    obtain ⟨hname, hstep⟩ := makeStepSessionId_injective
      (hshort key (List.mem_cons_of_mem _ hkey)) (hshort x.stepKey List.mem_cons_self) hid
    have hsame : key = x.stepKey := Prod.ext hname hstep
    exact hnew (hsame ▸ hkey)

variable {y : SessionState} {a : SessionAction}

theorem keeps_step (h : Keeps cfg x) (hstep : (sessionMachine cfg).step x a = some y) :
    Keeps cfg y := by
  cases a with
  | newRun adjective verb noun pauseRequested approved =>
    cases hstep
    exact h.newRun _ _ _
  | act a =>
    obtain ⟨run, hrun, rfl⟩ := Option.map_eq_some_iff.mp hstep
    exact h.goOn hrun
  | prepare stepPrompt =>
    obtain ⟨⟨-, hprompt⟩, hy⟩ := Option.ite_none_right_eq_some.mp hstep
    cases hy
    exact h.prepare hprompt
  | checkpoint m =>
    obtain ⟨loop, hloop, rfl⟩ := Option.map_eq_some_iff.mp hstep
    exact h.checkpoint hloop m

/-- Under the condition, and only then, a step inherits nothing. -/
theorem inheritsNothing_step (h : Keeps cfg x) (hnothing : InheritsNothing x)
    (hstep : (sessionMachine cfg).step x a = some y) :
    InheritsNothing y ↔ nothingEarlier cfg x a := by
  cases a with
  | newRun adjective verb noun pauseRequested approved =>
    cases hstep
    exact iff_of_true (InheritsNothing.newRun _ _ _) trivial
  | act a =>
    obtain ⟨run, hrun, rfl⟩ := Option.map_eq_some_iff.mp hstep
    have hloop : ∀ loop ∈ (x.goOn run).loop, ∀ m ∈ loop.restored, x.firstId ≤ m.id :=
      fun loop hmem => hnothing.2 loop (mem_loop_goOn hmem)
    have hloaded : run.2.loaded = [] ↔
        (x.run.1.point = .planApproved → a = .answer .done → x.planName ∉ x.recorded) := by
      rw [loaded_step hrun]
      split
      · rename_i hload
        rw [h.list_eq_nil_iff]
        exact ⟨fun hname _ _ => hname, fun himp => himp hload.1 hload.2⟩
      · rename_i hload
        exact iff_of_true hnothing.1 fun hpoint ha => absurd ⟨hpoint, ha⟩ hload
    exact ⟨fun hy => hloaded.mp hy.1, fun hcond => ⟨hloaded.mpr hcond, hloop⟩⟩
  | prepare stepPrompt =>
    obtain ⟨⟨-, hprompt⟩, hy⟩ := Option.ite_none_right_eq_some.mp hstep
    cases hy
    have hrestored := h.restored_iff
      (checkpointSystemPrompt_ne_empty cfg.systemPrompt cfg.skillPrompt hprompt)
    unfold InheritsNothing SessionState.prepare nothingEarlier
    simp only [Option.mem_some_iff, forall_eq']
    rw [hrestored, and_iff_right hnothing.1]
  | checkpoint m =>
    obtain ⟨loop, hloop, rfl⟩ := Option.map_eq_some_iff.mp hstep
    exact iff_of_true hnothing trivial

/-- In every sequence of runs, a new run inherits nothing if and only if, whenever it begins to
execute, no result has been recorded under its name, and, whenever it prepares a step, no earlier
run has prepared one with the same session id. -/
theorem inheritsNothing_iff (cfg : SessionConfig) {as : List SessionAction}
    (hrun : (sessionMachine cfg).run {} as = some y) :
    (sessionMachine cfg).Always InheritsNothing {} as ↔
      (sessionMachine cfg).Meets (nothingEarlier cfg) {} as := by
  have hinit : InheritsNothing {} := by
    refine ⟨rfl, fun loop hloop => ?_⟩
    cases hloop
  refine (sessionMachine cfg).always_iff_meets (I := fun x => Keeps cfg x ∧ InheritsNothing x)
    (fun _ h => h.2) ?_ ?_ ⟨keeps_begin, hinit⟩ hrun
  · intro x a y h hcond hstep
    exact ⟨keeps_step h.1 hstep, (inheritsNothing_step h.1 h.2 hstep).mpr hcond⟩
  · intro x a y h hnot hstep hy
    exact hnot ((inheritsNothing_step h.1 h.2 hstep).mp hy)

end

/-! ## Two runs -/

/-- The ids are short here, so no digest is asked for. -/
def shortSession : SessionConfig where
  run := { requireConfirmation := false }
  sessionId := "s"
  digest text := text

/-- Up to the first message of the only step. -/
def beginOneStep (adjective : Fin adjectives.length) : List SessionAction :=
  .newRun adjective ⟨0, by decide⟩ ⟨0, by decide⟩ false false ::
    ((beginExecution ⟨[{ stepId := 1, title := "read", description := "" }], 1⟩).map .act ++
      [.act (.answer .done), .prepare "read", .checkpoint (.user 0 "go on")])

def runOneStep (adjective : Fin adjectives.length) : List SessionAction :=
  beginOneStep adjective ++ [.act (.answer .stepDone), .act (.answer .done)]

/-- Runs with different names. -/
theorem twoNames_inheritNothing : ∃ y,
    (sessionMachine shortSession).run {}
        (runOneStep ⟨0, by decide⟩ ++ runOneStep ⟨1, by decide⟩) = some y ∧
      (sessionMachine shortSession).Always InheritsNothing {}
        (runOneStep ⟨0, by decide⟩ ++ runOneStep ⟨1, by decide⟩) ∧
      y.recorded = ["brisk-mapping-anchor", "calm-mapping-anchor"] := by
  obtain ⟨y, hrun, hrecorded⟩ := Option.map_eq_some_iff.mp
    (show ((sessionMachine shortSession).run {}
        (runOneStep ⟨0, by decide⟩ ++ runOneStep ⟨1, by decide⟩)).map (fun y => y.recorded) =
      some ["brisk-mapping-anchor", "calm-mapping-anchor"] by decide)
  exact ⟨y, hrun, (inheritsNothing_iff shortSession hrun).mpr (by decide), hrecorded⟩

/-- The second run draws the name of the first. It begins with the result of the first, and its
step with both messages. -/
theorem oneName_inherits : ∃ y,
    (sessionMachine shortSession).run {}
        (runOneStep ⟨0, by decide⟩ ++ beginOneStep ⟨0, by decide⟩) = some y ∧
      ¬InheritsNothing y ∧ y.run.2.loaded = [⟨1, 0, "read"⟩] ∧
      (y.loop.map fun loop => loop.restored.map fun m => (m.content, decide (m.id < y.firstId))) =
        some [("<skill_context>\nread\n</skill_context>", true), ("go on", true)] := by
  obtain ⟨y, hrun, hy⟩ := Option.map_eq_some_iff.mp
    (show ((sessionMachine shortSession).run {}
        (runOneStep ⟨0, by decide⟩ ++ beginOneStep ⟨0, by decide⟩)).map (fun y =>
          (y.run.2.loaded, y.loop.map fun loop =>
            loop.restored.map fun m => (m.content, decide (m.id < y.firstId)))) =
      some ([⟨1, 0, "read"⟩],
        some [("<skill_context>\nread\n</skill_context>", true), ("go on", true)]) by decide)
  have hloaded : y.run.2.loaded = [⟨1, 0, "read"⟩] := congrArg Prod.fst hy
  refine ⟨y, hrun, fun hnothing => ?_, hloaded, congrArg Prod.snd hy⟩
  have hempty := hloaded.symm.trans hnothing.1
  cases hempty

end NeuralHub.Plan
