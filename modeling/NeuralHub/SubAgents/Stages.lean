/-
NeuralHub.SubAgents.Stages — `resolve_stages` and its copy in
`spawn_agent_dag.py`, and why both find the layers of longest paths.

Both copies work in the same way: a round takes the tasks whose dependencies are all resolved,
in the order of the task list, until `pending` is empty. The loop is written
once (`stageLoop`), with what a round appends and the text of the error as
parameters; the checks in front of it, which differ, are written out for
each copy.

The loop is compared with `Lib.layers` (`stageLoop_eq`), which knows of no
dictionary and of no set. All that is said of the stages follows from
there: which inputs have any (`resolveStages_isOk_iff`), that each task
is in one of them, and that its number is the length of the longest chain
of dependencies (`resolveStages_spec`).
-/
import NeuralHub.Lib.Layers
import Mathlib.Order.Bounds.Defs
import Mathlib.Data.List.Nodup

namespace NeuralHub.SubAgents

open NeuralHub.Lib

/-! ## The tasks -/

inductive PermissionLevel where
  | readonly
  | readwrite
  deriving DecidableEq, Repr

structure AgentTask where
  role : String
  task : String
  permission : PermissionLevel := .readonly
  allowedTools : List String := []
  dependsOn : List String := []
  deriving DecidableEq, Repr

structure ResolvedStage where
  stageId : Nat
  taskRoles : List String
  deriving DecidableEq, Repr

inductive OnDepFailure where
  | block
  | proceed
  deriving DecidableEq, Repr

/-- A task of the `spawn_agent` tool; `δ` is the type of its input. -/
structure PreparedTask (δ : Type) where
  index : Nat
  taskId : String
  label : String
  timeoutSeconds : Int
  inputData : δ
  dagId : String := ""
  dependsOn : List String := []
  onDepFailure : OnDepFailure := .block
  required : Bool := false
  deriving DecidableEq, Repr

/-! ## The rounds -/

/-- The dict of the tasks that are in no stage, with what they depend on. -/
abbrev Pending := List (String × List String)

/-- `pending[role_name].issubset(resolved)`, for a role that is in `pending`. -/
def isReady (pending : Pending) (resolved : List String) (role : String) : Bool :=
  match pending.lookup role with
  | some dependencies => dependencies.all (· ∈ resolved)
  | none => false

def readyRoles (taskOrder : List String) (pending : Pending) (resolved : List String) :
    List String :=
  taskOrder.filter (isReady pending resolved)

def popAll (pending : Pending) (roles : List String) : Pending :=
  pending.filter fun entry => entry.1 ∉ roles

theorem length_popAll_lt {taskOrder resolved rest : List String} {pending : Pending}
    {role : String} (h : readyRoles taskOrder pending resolved = role :: rest) :
    (popAll pending (role :: rest)).length < pending.length := by
  have hmem : role ∈ readyRoles taskOrder pending resolved := h ▸ List.mem_cons_self
  have hready := (List.mem_filter.mp hmem).2
  cases hlookup : pending.lookup role with
  | none => simp [isReady, hlookup] at hready
  | some dependencies =>
    refine List.length_filter_lt_length_iff_exists.mpr ?_
    obtain ⟨front, back, hsplit, -⟩ := List.lookup_eq_some_iff.mp hlookup
    exact ⟨(role, dependencies), by simp [hsplit], by simp⟩

/-- The `while pending` loop; `stage` is what a round appends. -/
def stageLoop {γ : Type} (cycle : String) (stage : Nat → List String → γ)
    (taskOrder : List String) (pending : Pending) (resolved : List String) (stages : List γ)
    (stageId : Nat) : Except String (List γ) :=
  if pending = [] then .ok stages
  else
    match h : readyRoles taskOrder pending resolved with
    | [] => .error cycle
    | role :: rest =>
      stageLoop cycle stage taskOrder (popAll pending (role :: rest)) (resolved ++ role :: rest)
        (stages ++ [stage stageId (role :: rest)]) (stageId + 1)
termination_by pending.length
decreasing_by exact length_popAll_lt h

/-! ## The two functions -/

/-- What the checks raise for a task: it depends on itself, or on a role that is not there. -/
def dependencyError (knownRoles : List String) (task : AgentTask) : Option String :=
  if task.role ∈ task.dependsOn then some s!"任务 {task.role} 不能依赖自己"
  else (task.dependsOn.find? (· ∉ knownRoles)).map fun dependency =>
    s!"任务 {task.role} 依赖了不存在的角色: {dependency}"

def resolveStages (tasks : List AgentTask) : Except String (List ResolvedStage) :=
  let taskOrder := tasks.map AgentTask.role
  if tasks.isEmpty then .error "tasks 至少包含一个任务"
  else if ¬taskOrder.Nodup then .error "tasks 中的 role 不能重复"
  else
    match tasks.findSome? (dependencyError taskOrder) with
    | some message => .error message
    | none => stageLoop "任务依赖存在循环，无法推导执行阶段" ResolvedStage.mk taskOrder
        (tasks.map fun task => (task.role, task.dependsOn)) [] [] 0

namespace Spawn

variable {δ : Type}

def dependencyError (prepared : List (PreparedTask δ)) (item : PreparedTask δ) : Option String :=
  let unknown := item.dependsOn.filter (· ∉ prepared.map PreparedTask.dagId)
  if item.dagId ∈ item.dependsOn then some s!"子 agent 任务不能依赖自己: {item.dagId}"
  else if unknown ≠ [] then some ("子 agent 任务依赖不存在: " ++ String.intercalate ", " unknown)
  else none

/-- `by_id[item_id]`. -/
def byId (prepared : List (PreparedTask δ)) (itemId : String) : Option (PreparedTask δ) :=
  prepared.find? fun item => item.dagId = itemId

def resolveStages (prepared : List (PreparedTask δ)) :
    Except String (List (List (PreparedTask δ))) :=
  let keys := prepared.map PreparedTask.dagId
  if ¬prepared.any (fun item => item.dependsOn ≠ []) then .ok [prepared]
  else if ¬keys.Nodup then .error "依赖型子 agent 任务必须使用唯一 id/role/spec_id"
  else
    match prepared.findSome? (dependencyError prepared) with
    | some message => .error message
    | none => stageLoop "子 agent 任务依赖存在循环" (fun _ ready => ready.filterMap (byId prepared))
        keys (prepared.map fun item => (item.dagId, item.dependsOn)) [] [] 0

end Spawn

/-! ## The loop and the layers -/

section Loop

variable {needs : String → List String} {taskOrder left done : List String}

theorem lookup_map_needs (left : List String) (role : String) :
    (left.map fun r => (r, needs r)).lookup role =
      if role ∈ left then some (needs role) else none := by
  induction left with
  | nil => rfl
  | cons r left ih =>
    rw [List.map_cons, List.lookup_cons]
    by_cases hr : role = r
    · subst hr
      simp
    · have hne : (role == r) = false := by simpa using hr
      simp [hne, ih, hr]

theorem readyRoles_eq (hleft : taskOrder.filter (· ∈ left) = left) :
    readyRoles taskOrder (left.map fun r => (r, needs r)) done = readyOf needs left done := by
  unfold readyOf
  rw [← hleft, List.filter_filter, readyRoles, hleft]
  refine List.filter_congr fun role _ => ?_
  rw [isReady, lookup_map_needs, Bool.eq_iff_iff]
  by_cases hmem : role ∈ left
  · simp [hmem]
  · simp [hmem]

theorem popAll_map_needs (left roles : List String) :
    popAll (left.map fun r => (r, needs r)) roles =
      (left.filter (· ∉ roles)).map fun r => (r, needs r) := by
  rw [popAll, List.filter_map]
  rfl

theorem filter_mem_filter (hleft : taskOrder.filter (· ∈ left) = left) (p : String → Bool) :
    taskOrder.filter (· ∈ left.filter p) = left.filter p := by
  calc taskOrder.filter (· ∈ left.filter p)
      = taskOrder.filter fun r => p r && decide (r ∈ left) := by
        refine List.filter_congr fun r _ => ?_
        rw [Bool.eq_iff_iff]
        simp only [List.mem_filter, decide_eq_true_eq, Bool.and_eq_true]
        exact and_comm
    _ = (taskOrder.filter (· ∈ left)).filter p := List.filter_filter.symm
    _ = left.filter p := by rw [hleft]

/-- The loop finds the layers of what is left, and fails where there are none. -/
theorem stageLoop_eq {γ : Type} (cycle : String) (stage : Nat → List String → γ) {rounds : Nat}
    (hleft : taskOrder.filter (· ∈ left) = left) (hrounds : left.length ≤ rounds)
    (stages : List γ) (stageId : Nat) :
    stageLoop cycle stage taskOrder (left.map fun r => (r, needs r)) done stages stageId =
      match layersFrom needs rounds left done with
      | some ls => .ok (stages ++ ls.mapIdx fun i layer => stage (stageId + i) layer)
      | none => .error cycle := by
  induction rounds generalizing left done stages stageId with
  | zero =>
    obtain rfl := List.length_eq_zero_iff.mp (Nat.le_zero.mp hrounds)
    rw [stageLoop, layersFrom_nil]
    simp
  | succ rounds ih =>
    by_cases hne : left = []
    · subst hne
      rw [stageLoop, layersFrom_nil]
      simp
    · rw [stageLoop, if_neg (by simpa using hne), layersFrom_succ hne]
      split
      · rename_i hready
        rw [readyRoles_eq hleft] at hready
        rw [if_pos hready]
      · rename_i role rest hready
        rw [readyRoles_eq hleft] at hready
        rw [if_neg (by rw [hready]; exact List.cons_ne_nil role rest), hready, popAll_map_needs]
        have hlt := length_filter_notMem_lt (by rw [hready]; exact List.cons_ne_nil role rest)
        rw [hready] at hlt
        rw [ih (filter_mem_filter hleft _) (by omega)]
        cases layersFrom needs rounds (left.filter (· ∉ role :: rest)) (done ++ role :: rest) with
        | none => rfl
        | some ls => simp [List.mapIdx_cons, Nat.add_assoc, Nat.add_comm 1]

end Loop

/-! ## The graph of the dependencies -/

section Graph

variable {tasks : List AgentTask} {task : AgentTask} {a b : String}

/-- A task with role `a` depends on `b`. -/
def DependsOn (tasks : List AgentTask) (a b : String) : Prop :=
  ∃ task ∈ tasks, task.role = a ∧ b ∈ task.dependsOn

/-- What `resolve_stages` is to refuse. -/
def Rejected (tasks : List AgentTask) : Prop :=
  tasks = [] ∨ ¬(tasks.map AgentTask.role).Nodup ∨
  (∃ task ∈ tasks, task.role ∈ task.dependsOn ∨
    ∃ dependency ∈ task.dependsOn, dependency ∉ tasks.map AgentTask.role) ∨
  ∃ a, Relation.TransGen (DependsOn tasks) a a

structure LongestPathLayers (tasks : List AgentTask) (stages : List ResolvedStage) : Prop where
  numbered : stages.map ResolvedStage.stageId = List.range stages.length
  perm : (stages.flatMap ResolvedStage.taskRoles).Perm (tasks.map AgentTask.role)
  unique : ∀ task ∈ tasks, ∃! stage, stage ∈ stages ∧ task.role ∈ stage.taskRoles
  longest : ∀ stage ∈ stages, ∀ role ∈ stage.taskRoles,
    IsGreatest (fun n => Chain (DependsOn tasks) n role) stage.stageId

/-- The dependencies by role. -/
def dependenciesOf (tasks : List AgentTask) (role : String) : List String :=
  match tasks.find? fun task => task.role = role with
  | some task => task.dependsOn
  | none => []

theorem dependenciesOf_role (hnodup : (tasks.map AgentTask.role).Nodup) (ht : task ∈ tasks) :
    dependenciesOf tasks task.role = task.dependsOn := by
  unfold dependenciesOf
  cases hfind : tasks.find? fun t => t.role = task.role with
  | none =>
    have hne := List.find?_eq_none.mp hfind task ht
    simp at hne
  | some found =>
    have hrole : found.role = task.role := by simpa using List.find?_some hfind
    rw [List.inj_on_of_nodup_map hnodup (List.mem_of_find?_eq_some hfind) ht hrole]

theorem map_role_dependsOn (hnodup : (tasks.map AgentTask.role).Nodup) :
    (tasks.map fun task => (task.role, task.dependsOn)) =
      (tasks.map AgentTask.role).map fun role => (role, dependenciesOf tasks role) := by
  rw [List.map_map]
  refine List.map_congr_left fun task ht => ?_
  rw [Function.comp_apply, dependenciesOf_role hnodup ht]

theorem findSome?_dependencyError {known : List String} :
    tasks.findSome? (dependencyError known) = none ↔
      ∀ task ∈ tasks, task.role ∉ task.dependsOn ∧ ∀ b ∈ task.dependsOn, b ∈ known := by
  rw [List.findSome?_eq_none_iff]
  refine forall₂_congr fun task _ => ?_
  unfold dependencyError
  split
  · rename_i hself
    simp [hself]
  · rename_i hself
    simp [hself, List.find?_eq_none]

/-- The tasks are named by their roles, and depend on tasks of the list. -/
structure Admitted (tasks : List AgentTask) : Prop where
  nonempty : tasks ≠ []
  nodup : (tasks.map AgentTask.role).Nodup
  known : ∀ task ∈ tasks, task.role ∉ task.dependsOn ∧
    ∀ b ∈ task.dependsOn, b ∈ tasks.map AgentTask.role

theorem Admitted.closed (h : Admitted tasks) :
    Closed (dependenciesOf tasks) (tasks.map AgentTask.role) := by
  intro a ha b hb
  obtain ⟨task, ht, rfl⟩ := List.mem_map.mp ha
  rw [dependenciesOf_role h.nodup ht] at hb
  exact (h.known task ht).2 b hb

theorem Admitted.needs_eq (h : Admitted tasks) :
    Needs (dependenciesOf tasks) (tasks.map AgentTask.role) = DependsOn tasks := by
  funext a b
  refine propext ⟨?_, ?_⟩
  · rintro ⟨ha, -, hb⟩
    obtain ⟨task, ht, rfl⟩ := List.mem_map.mp ha
    rw [dependenciesOf_role h.nodup ht] at hb
    exact ⟨task, ht, rfl, hb⟩
  · rintro ⟨task, ht, rfl, hb⟩
    refine ⟨List.mem_map_of_mem ht, (h.known task ht).2 b hb, ?_⟩
    rwa [dependenciesOf_role h.nodup ht]

theorem rejected_iff : Rejected tasks ↔
    ¬(Admitted tasks ∧ ∀ a, ¬Relation.TransGen (DependsOn tasks) a a) := by
  constructor
  · rintro (hnil | hdup | ⟨task, ht, hself | ⟨b, hb, hunknown⟩⟩ | ⟨a, ha⟩) ⟨hadmitted, hacyclic⟩
    · exact hadmitted.nonempty hnil
    · exact hdup hadmitted.nodup
    · exact (hadmitted.known task ht).1 hself
    · exact hunknown ((hadmitted.known task ht).2 b hb)
    · exact hacyclic a ha
  · intro hnot
    by_contra hrejected
    obtain ⟨hne, hdup, hknown, hcycle⟩ :
        tasks ≠ [] ∧ (tasks.map AgentTask.role).Nodup ∧
        (∀ task ∈ tasks, task.role ∉ task.dependsOn ∧
          ∀ b ∈ task.dependsOn, b ∈ tasks.map AgentTask.role) ∧
        ∀ a, ¬Relation.TransGen (DependsOn tasks) a a := by
      simpa only [Rejected, not_or, not_not, not_exists, not_and] using hrejected
    exact hnot ⟨⟨hne, hdup, hknown⟩, hcycle⟩

/-! ## The stages -/

/-- The stages as the layers, numbered. -/
def numberStages (layers : List (List String)) : List ResolvedStage :=
  layers.mapIdx fun i layer => ⟨i, layer⟩

theorem resolveStages_of_admitted (h : Admitted tasks) :
    resolveStages tasks =
      match layers (dependenciesOf tasks) (tasks.map AgentTask.role) with
      | some ls => .ok (numberStages ls)
      | none => .error "任务依赖存在循环，无法推导执行阶段" := by
  rw [resolveStages, if_neg (by simpa using h.nonempty), if_neg (not_not.mpr h.nodup),
    findSome?_dependencyError.mpr h.known]
  have hall : (tasks.map AgentTask.role).filter (· ∈ tasks.map AgentTask.role) =
      tasks.map AgentTask.role := List.filter_eq_self.mpr fun r hr => decide_eq_true hr
  rw [map_role_dependsOn h.nodup, stageLoop_eq _ _ hall (Nat.le_refl _), layers]
  cases layersFrom (dependenciesOf tasks) (tasks.map AgentTask.role).length
      (tasks.map AgentTask.role) [] with
  | none => rfl
  | some ls => simp [numberStages]

theorem admitted_of_isOk {stages : List ResolvedStage} (h : resolveStages tasks = .ok stages) :
    Admitted tasks := by
  unfold resolveStages at h
  split at h
  · cases h
  · rename_i hne
    dsimp only at h
    split at h
    · cases h
    · rename_i hnodup
      split at h
      · cases h
      · rename_i hknown
        exact ⟨by simpa using hne, not_not.mp hnodup, findSome?_dependencyError.mp hknown⟩

theorem Admitted.layers_isSome_iff (h : Admitted tasks) :
    (layers (dependenciesOf tasks) (tasks.map AgentTask.role)).isSome ↔
      ∀ a, ¬Relation.TransGen (DependsOn tasks) a a := by
  rw [Lib.layers_isSome_iff h.closed, Acyclic, h.needs_eq]

theorem layers_of_resolveStages {stages : List ResolvedStage}
    (h : resolveStages tasks = .ok stages) :
    ∃ ls, layers (dependenciesOf tasks) (tasks.map AgentTask.role) = some ls ∧
      stages = numberStages ls := by
  rw [resolveStages_of_admitted (admitted_of_isOk h)] at h
  cases hlayers : layers (dependenciesOf tasks) (tasks.map AgentTask.role) with
  | none =>
    rw [hlayers] at h
    cases h
  | some ls =>
    rw [hlayers] at h
    cases h
    exact ⟨ls, rfl, rfl⟩

/-- Exactly the lists that are not to be refused have stages. -/
theorem resolveStages_isOk_iff :
    (∃ stages, resolveStages tasks = .ok stages) ↔ ¬Rejected tasks := by
  rw [rejected_iff, not_not]
  constructor
  · rintro ⟨stages, hstages⟩
    have hadmitted := admitted_of_isOk hstages
    obtain ⟨ls, hls, -⟩ := layers_of_resolveStages hstages
    exact ⟨hadmitted, hadmitted.layers_isSome_iff.mp (Option.isSome_of_eq_some hls)⟩
  · rintro ⟨hadmitted, hacyclic⟩
    obtain ⟨ls, hls⟩ := Option.isSome_iff_exists.mp (hadmitted.layers_isSome_iff.mpr hacyclic)
    rw [resolveStages_of_admitted hadmitted, hls]
    exact ⟨_, rfl⟩

theorem map_taskRoles_numberStages (ls : List (List String)) :
    (numberStages ls).map ResolvedStage.taskRoles = ls := by
  refine List.ext_getElem (by simp [numberStages]) fun i _ _ => ?_
  simp [numberStages]

theorem mem_numberStages {ls : List (List String)} {stage : ResolvedStage} :
    stage ∈ numberStages ls ↔ ls[stage.stageId]? = some stage.taskRoles := by
  rw [numberStages, List.mem_mapIdx]
  constructor
  · rintro ⟨i, hi, rfl⟩
    exact List.getElem?_eq_getElem hi
  · intro hstage
    obtain ⟨hlt, heq⟩ := List.getElem?_eq_some_iff.mp hstage
    exact ⟨stage.stageId, hlt, by rw [heq]⟩

theorem isGreatest_chain_iff {r : String → String → Prop} {n : Nat} :
    IsGreatest (fun n => Chain r n a) n ↔ Chain r n a ∧ ¬Chain r (n + 1) a := by
  constructor
  · rintro ⟨hmem, hupper⟩
    exact ⟨hmem, fun hsucc => Nat.not_succ_le_self n (hupper hsucc)⟩
  · rintro ⟨hmem, hsucc⟩
    refine ⟨hmem, fun m hm => ?_⟩
    by_contra hlt
    exact hsucc (chain_antitone (Nat.lt_of_not_le hlt) hm)

theorem resolveStages_spec {stages : List ResolvedStage} (h : resolveStages tasks = .ok stages) :
    LongestPathLayers tasks stages := by
  have hadmitted := admitted_of_isOk h
  obtain ⟨ls, hls, rfl⟩ := layers_of_resolveStages h
  have hlongest : ∀ stage ∈ numberStages ls, ∀ role ∈ stage.taskRoles,
      IsGreatest (fun n => Chain (DependsOn tasks) n role) stage.stageId := by
    intro stage hstage role hrole
    have hchain := (mem_layers_iff hadmitted.closed hls (mem_numberStages.mp hstage)).mp hrole
    rw [hadmitted.needs_eq] at hchain
    exact isGreatest_chain_iff.mpr hchain.2
  refine ⟨?_, ?_, fun task ht => ?_, hlongest⟩
  · refine List.ext_getElem (by simp [numberStages]) fun i _ _ => ?_
    simp [numberStages]
  · rw [List.flatMap_def, map_taskRoles_numberStages]
    exact layers_perm hls
  · obtain ⟨m, layer, hm, hmem⟩ := exists_layer_of_mem hls (List.mem_map_of_mem ht)
    have hstage : (⟨m, layer⟩ : ResolvedStage) ∈ numberStages ls := mem_numberStages.mpr hm
    refine ⟨⟨m, layer⟩, ⟨hstage, hmem⟩, ?_⟩
    rintro other ⟨hother, hmem'⟩
    obtain ⟨n, roles⟩ := other
    obtain rfl : n = m := (hlongest _ hother _ hmem').unique (hlongest _ hstage _ hmem)
    have hroles : some roles = some layer := (mem_numberStages.mp hother).symm.trans hm
    rw [Option.some.inj hroles]

end Graph

/-! ## The copy -/

namespace Spawn

variable {δ : Type} {prepared : List (PreparedTask δ)} {item : PreparedTask δ}

/-- A prepared task as a task of a plan. -/
def agentTask (item : PreparedTask δ) : AgentTask where
  role := item.dagId
  task := item.label
  dependsOn := item.dependsOn

theorem map_role_agentTask :
    (prepared.map agentTask).map AgentTask.role = prepared.map PreparedTask.dagId := by
  rw [List.map_map]
  rfl

theorem findSome?_dependencyError :
    prepared.findSome? (dependencyError prepared) = none ↔
      ∀ item ∈ prepared, item.dagId ∉ item.dependsOn ∧
        ∀ b ∈ item.dependsOn, b ∈ prepared.map PreparedTask.dagId := by
  rw [List.findSome?_eq_none_iff]
  refine forall₂_congr fun item _ => ?_
  rw [dependencyError]
  split
  · rename_i hself
    simp [hself]
  · rename_i hself
    split
    · rename_i hunknown
      simpa [hself] using hunknown
    · rename_i hunknown
      simpa [hself] using hunknown

theorem admitted_iff : Admitted (prepared.map agentTask) ↔
    prepared ≠ [] ∧ (prepared.map PreparedTask.dagId).Nodup ∧
      prepared.findSome? (dependencyError prepared) = none := by
  rw [findSome?_dependencyError]
  constructor
  · rintro ⟨hne, hnodup, hknown⟩
    rw [map_role_agentTask] at hnodup hknown
    exact ⟨by simpa using hne, hnodup, fun item hitem => hknown _ (List.mem_map_of_mem hitem)⟩
  · rintro ⟨hne, hnodup, hknown⟩
    refine ⟨by simpa using hne, by rwa [map_role_agentTask], fun task htask => ?_⟩
    obtain ⟨item, hitem, rfl⟩ := List.mem_map.mp htask
    rw [map_role_agentTask]
    exact hknown item hitem

theorem admitted_of_isOk {stages : List (List (PreparedTask δ))}
    (hdep : ∃ item ∈ prepared, item.dependsOn ≠ []) (h : resolveStages prepared = .ok stages) :
    Admitted (prepared.map agentTask) := by
  obtain ⟨item, hitem, hne⟩ := hdep
  rw [resolveStages, if_neg (by simpa using ⟨item, hitem, hne⟩)] at h
  split at h
  · cases h
  · rename_i hnodup
    split at h
    · cases h
    · rename_i hknown
      exact admitted_iff.mpr ⟨List.ne_nil_of_mem hitem, not_not.mp hnodup, hknown⟩

theorem resolveStages_of_admitted (hdep : ∃ item ∈ prepared, item.dependsOn ≠ [])
    (h : Admitted (prepared.map agentTask)) :
    resolveStages prepared =
      match layers (dependenciesOf (prepared.map agentTask))
        (prepared.map PreparedTask.dagId) with
      | some ls => .ok (ls.map fun layer => layer.filterMap (byId prepared))
      | none => .error "子 agent 任务依赖存在循环" := by
  obtain ⟨-, hnodup, hknown⟩ := admitted_iff.mp h
  obtain ⟨item, hitem, hne⟩ := hdep
  rw [resolveStages, if_neg (by simpa using ⟨item, hitem, hne⟩), if_neg (not_not.mpr hnodup),
    hknown]
  have hpending := map_role_dependsOn h.nodup
  rw [map_role_agentTask, List.map_map] at hpending
  have hall : (prepared.map PreparedTask.dagId).filter (· ∈ prepared.map PreparedTask.dagId) =
      prepared.map PreparedTask.dagId := List.filter_eq_self.mpr fun r hr => decide_eq_true hr
  refine Eq.trans (congrArg (fun pending => stageLoop _ _ _ pending _ _ _) hpending) ?_
  rw [stageLoop_eq _ _ hall (Nat.le_refl _), layers]
  cases layersFrom (dependenciesOf (prepared.map agentTask))
      (prepared.map PreparedTask.dagId).length (prepared.map PreparedTask.dagId) [] with
  | none => rfl
  | some ls =>
    refine congrArg Except.ok (List.ext_getElem (by simp) fun i _ _ => ?_)
    simp

theorem byId_dagId (hnodup : (prepared.map PreparedTask.dagId).Nodup) (hitem : item ∈ prepared) :
    byId prepared item.dagId = some item := by
  unfold byId
  cases hfind : prepared.find? fun other => other.dagId = item.dagId with
  | none =>
    have hne := List.find?_eq_none.mp hfind item hitem
    simp at hne
  | some found =>
    have hid : found.dagId = item.dagId := by simpa using List.find?_some hfind
    rw [List.inj_on_of_nodup_map hnodup (List.mem_of_find?_eq_some hfind) hitem hid]

theorem map_dagId_filterMap_byId {ids : List String}
    (hids : ∀ id ∈ ids, id ∈ prepared.map PreparedTask.dagId) :
    (ids.filterMap (byId prepared)).map PreparedTask.dagId = ids := by
  induction ids with
  | nil => rfl
  | cons id ids ih =>
    obtain ⟨item, hitem, hid⟩ := List.mem_map.mp (hids id List.mem_cons_self)
    obtain ⟨found, hfound⟩ : ∃ found, byId prepared id = some found := by
      refine Option.isSome_iff_exists.mp ?_
      rw [byId, List.find?_isSome]
      exact ⟨item, hitem, decide_eq_true hid⟩
    have hdagId : found.dagId = id := by simpa using List.find?_some hfound
    rw [List.filterMap_cons_some hfound, List.map_cons, hdagId,
      ih fun id hid => hids id (List.mem_cons_of_mem _ hid)]

theorem filterMap_byId_dagIds (hnodup : (prepared.map PreparedTask.dagId).Nodup) :
    (prepared.map PreparedTask.dagId).filterMap (byId prepared) = prepared := by
  rw [List.filterMap_map]
  calc prepared.filterMap (byId prepared ∘ PreparedTask.dagId)
      = prepared.filterMap some := List.filterMap_congr fun item hitem => byId_dagId hnodup hitem
    _ = prepared := List.filterMap_some

/-- The copy accepts the same lists, and its stages are the same. -/
theorem resolveStages_agrees (hdep : ∃ item ∈ prepared, item.dependsOn ≠ []) :
    (resolveStages prepared).toOption.map (List.map (List.map PreparedTask.dagId)) =
      (SubAgents.resolveStages (prepared.map agentTask)).toOption.map
        (List.map ResolvedStage.taskRoles) := by
  by_cases h : Admitted (prepared.map agentTask)
  · rw [resolveStages_of_admitted hdep h, SubAgents.resolveStages_of_admitted h,
      map_role_agentTask]
    cases hls : layers (dependenciesOf (prepared.map agentTask))
        (prepared.map PreparedTask.dagId) with
    | none => rfl
    | some ls =>
      refine congrArg some ?_
      rw [map_taskRoles_numberStages, List.map_map]
      calc ls.map (List.map PreparedTask.dagId ∘ List.filterMap (byId prepared))
          = ls.map id := by
            refine List.map_congr_left fun layer hlayer => map_dagId_filterMap_byId fun id hid => ?_
            exact (layers_perm hls).mem_iff.mp (List.mem_flatten.mpr ⟨layer, hlayer, hid⟩)
        _ = ls := List.map_id ls
  · have hcopy : ∀ stages, resolveStages prepared ≠ .ok stages :=
      fun stages hstages => h (admitted_of_isOk hdep hstages)
    have hplan : ∀ stages, SubAgents.resolveStages (prepared.map agentTask) ≠ .ok stages :=
      fun stages hstages => h (SubAgents.admitted_of_isOk hstages)
    cases hc : resolveStages prepared with
    | ok stages => exact absurd hc (hcopy stages)
    | error _ =>
      cases hp : SubAgents.resolveStages (prepared.map agentTask) with
      | ok stages => exact absurd hp (hplan stages)
      | error _ => rfl

/-- No task is lost in the dictionary. -/
theorem resolveStages_perm {stages : List (List (PreparedTask δ))}
    (h : resolveStages prepared = .ok stages) : stages.flatten.Perm prepared := by
  by_cases hdep : ∃ item ∈ prepared, item.dependsOn ≠ []
  · have hadmitted := admitted_of_isOk hdep h
    obtain ⟨-, hnodup, -⟩ := admitted_iff.mp hadmitted
    rw [resolveStages_of_admitted hdep hadmitted] at h
    cases hls : layers (dependenciesOf (prepared.map agentTask))
        (prepared.map PreparedTask.dagId) with
    | none =>
      rw [hls] at h
      cases h
    | some ls =>
      rw [hls] at h
      cases h
      rw [← List.filterMap_flatten]
      have hperm := (layers_perm hls).filterMap (byId prepared)
      rwa [filterMap_byId_dagIds hnodup] at hperm
  · rw [resolveStages, if_pos (by simpa using hdep)] at h
    cases h
    simp

end Spawn

/-! ## What the stages are -/

/-- `resolve_stages` refuses what it is to refuse and else finds the layers of longest paths;
so does its copy. -/
theorem stages_are_longest_path_layers {δ : Type} (tasks : List AgentTask)
    (prepared : List (PreparedTask δ)) :
    ((∃ message, resolveStages tasks = .error message) ↔ Rejected tasks) ∧
    (∀ stages, resolveStages tasks = .ok stages → LongestPathLayers tasks stages) ∧
    ((∃ item ∈ prepared, item.dependsOn ≠ []) →
      (Spawn.resolveStages prepared).toOption.map (List.map (List.map PreparedTask.dagId)) =
          (resolveStages (prepared.map Spawn.agentTask)).toOption.map
            (List.map ResolvedStage.taskRoles) ∧
        ∀ stages, Spawn.resolveStages prepared = .ok stages → stages.flatten.Perm prepared) := by
  refine ⟨?_, fun stages hstages => resolveStages_spec hstages, fun hdep =>
    ⟨Spawn.resolveStages_agrees hdep, fun stages hstages => Spawn.resolveStages_perm hstages⟩⟩
  rw [← not_iff_not, ← resolveStages_isOk_iff]
  cases resolveStages tasks with
  | ok stages => simp
  | error message => simp

/-- A plan in three stages, in another order than its tasks. -/
def reportPlan : List AgentTask :=
  [{ role := "writer", task := "", dependsOn := ["analyst", "scout"] },
    { role := "analyst", task := "", dependsOn := ["scout", "scout"] },
    { role := "scout", task := "" }]

/-- The same plan as children of a `spawn_agent` call. -/
def preparedReport : List (PreparedTask Unit) :=
  reportPlan.mapIdx fun i task =>
    { index := i, taskId := "t-" ++ task.role, label := "", timeoutSeconds := 60, inputData := ()
      dagId := task.role, dependsOn := task.dependsOn }

theorem reportPlan_layers :
    LongestPathLayers reportPlan [⟨0, ["scout"]⟩, ⟨1, ["analyst"]⟩, ⟨2, ["writer"]⟩] ∧
      (∃ message, resolveStages (⟨"scout", "", .readonly, [], ["writer"]⟩ :: reportPlan.take 2) =
        .error message) ∧
      (Spawn.resolveStages preparedReport).toOption.map (List.map (List.map PreparedTask.dagId)) =
        some [["scout"], ["analyst"], ["writer"]] := by
  have hresolved : resolveStages reportPlan =
      .ok [⟨0, ["scout"]⟩, ⟨1, ["analyst"]⟩, ⟨2, ["writer"]⟩] := by decide +kernel
  have hplan : preparedReport.map Spawn.agentTask = reportPlan := by decide
  have hcopy := ((stages_are_longest_path_layers reportPlan preparedReport).2.2 (by decide)).1
  rw [hplan, hresolved] at hcopy
  exact ⟨(stages_are_longest_path_layers reportPlan preparedReport).2.1 _ hresolved,
    (stages_are_longest_path_layers (δ := Unit) _ []).1.mpr
      (Or.inr (Or.inr (Or.inr ⟨"scout", .tail (.single ⟨_, List.mem_cons_self, rfl, by decide⟩)
        ⟨_, List.mem_cons_of_mem _ List.mem_cons_self, rfl, by decide⟩⟩))), hcopy⟩

end NeuralHub.SubAgents
