/-
NeuralHub.SubAgents.SpawnDagTheorems — when every task of a spawned DAG is
accounted for.

A stage records a status for each of its tasks, unless the queue has lost
one: the waiting skips what has disappeared, and then there is no status, and the next
stage that depends on the task raises a `KeyError`. And a stage reads the
children of the parent anew, so it takes a child that an earlier stage has
taken or submitted, if the keys agree and no other child with the key stands
in front of it often enough (`mem_reusedStatuses_iff`). `Careful` excludes
both, and the one exception that is neither of the submission nor of the
waiting; a run keeps `Good` exactly as long as its steps are careful
(`always_accounted_iff_careful`).
-/
import NeuralHub.SubAgents.SpawnDag

namespace NeuralHub.SubAgents.Spawn

open NeuralHub.Lib
open NeuralHub.TaskQueue (TaskStatus)

variable {env : Environment} {prepared : List Prepared} {s t : DagContext}
  {stage : List Prepared} {rest : List (List Prepared)} {answers : StageAnswers}
  {statusesById : Statuses} {item : Prepared} {split : StageSplit}

/-! ## What is to hold -/

/-- All dependencies have succeeded. -/
def DepsSucceeded (statusesById : Statuses) (item : Prepared) : Prop :=
  ∀ dep ∈ item.dependsOn, ∃ entry, statusesById.find dep = some entry ∧
    entry.2.status = .succeeded

/-- The place of a task in the call. -/
def place (item : Prepared) : Nat × String := (item.index, item.dagId)

structure Good (prepared : List Prepared) (s : DagContext) : Prop where
  raised : ∀ r, s.raised = some r → r.fromQueue = true
  /-- no task is lost between the stages -/
  accounted : (s.finalPrepared.map place ++ s.rest.flatten.map place).Perm (prepared.map place)
  /-- one status for each task whose stage is through -/
  reported : s.allStatuses.map ChildPayload.taskId = s.finalPrepared.map PreparedTask.taskId
  /-- no child, reused or submitted, stands for two tasks -/
  used_once : (s.finalPrepared.map PreparedTask.taskId).Nodup
  unblocked : ∀ item ∈ s.submitted, item.onDepFailure = .block → DepsSucceeded s.statusesById item

/-- The stage comes to its end: neither the submission nor the waiting raises. -/
def Completes (answers : StageAnswers) (split : StageSplit) : Prop :=
  answers.submit = .ok () ∧ (split.reuse.toSubmit = [] ∨ ∃ endings, answers.wait = .ok endings)

/-- The tasks of a stage that are run, with the results of their dependencies. -/
def runnableTasks (env : Environment) (statusesById : Statuses) (now : Int)
    (stage : List Prepared) : List Prepared :=
  stage.filterMap fun item =>
    match blockedStatus now statusesById item with
    | .ok none => (withDependencyInput env statusesById item).toOption
    | _ => none

/-- How many tasks would take an earlier child with this key. -/
def demand (env : Environment) (key : String) (items : List Prepared) : Nat :=
  items.countP fun item => !cacheDisabled item.inputData && reuseKey env item.inputData == key

/-- How many children with its key stand in front of a child. -/
def ahead (env : Environment) (child : ChildPayload) (reusable : List ChildPayload) : Nat :=
  (reusable.takeWhile (· ≠ child)).countP fun other =>
    reuseKey env other.inputData == reuseKey env child.inputData

/-- For each child that the call has used already there are enough others in front of it. -/
def ReusesNew (env : Environment) (s : DagContext) (now : Int) (stage : List Prepared)
    (children : List ChildPayload) : Prop :=
  ∀ child ∈ groupReusable env now children,
    child.taskId ∈ s.finalPrepared.map PreparedTask.taskId →
      demand env (reuseKey env child.inputData) (runnableTasks env s.statusesById now stage) ≤
        ahead env child (groupReusable env now children)

/-- The children can be read; and if the stage comes to its end, then each task that it
submitted has a status, and no child that the call has used is taken once more. -/
def CarefulStage (env : Environment) (s : DagContext) (stage : List Prepared)
    (answers : StageAnswers) : Prop :=
  (∃ children, answers.children = .ok children) ∧
  ∀ split, splitStage env s.statusesById stage answers = .ok split → Completes answers split →
    (∀ endings, answers.wait = .ok endings → ∀ item ∈ split.reuse.toSubmit,
      (endings item.taskId).isSome) ∧
    ∀ children, answers.children = .ok children → ReusesNew env s answers.now stage children

def Careful (env : Environment) (s : DagContext) (answers : StageAnswers) : Prop :=
  match s.rest with
  | stage :: _ => CarefulStage env s stage answers
  | [] => True

instance : Decidable (Completes answers split) := by
  unfold Completes
  infer_instance

instance (now : Int) (children : List ChildPayload) :
    Decidable (ReusesNew env s now stage children) := by
  unfold ReusesNew
  infer_instance

instance : Decidable (CarefulStage env s stage answers) := by
  unfold CarefulStage
  infer_instance

instance : Decidable (Careful env s answers) := by
  unfold Careful
  split <;> infer_instance

/-! ## Reuse -/

theorem takeReusable_mem {reusable : List ChildPayload} {status : ChildPayload}
    (h : takeReusable env reusable item = some status) : status ∈ reusable := by
  unfold takeReusable at h
  exact List.mem_of_find?_eq_some (Option.ite_none_left_eq_some.mp h).2

/-- What is reused are children, each at most once. -/
theorem reusedStatuses_subperm (items : List Prepared) (reusable : List ChildPayload) :
    (splitReusedTasks env reusable items).reusedStatuses.Subperm reusable := by
  induction items generalizing reusable with
  | nil => exact List.nil_subperm
  | cons item items ih =>
    rw [splitReusedTasks]
    cases htake : takeReusable env reusable item with
    | none => exact ih reusable
    | some status =>
      have hcons := (List.subperm_cons status).mpr (ih (reusable.erase status))
      exact hcons.trans (List.perm_cons_erase (takeReusable_mem htake)).symm.subperm

theorem toSubmit_sublist (items : List Prepared) (reusable : List ChildPayload) :
    (splitReusedTasks env reusable items).toSubmit.Sublist items := by
  induction items generalizing reusable with
  | nil => exact List.Sublist.refl _
  | cons item items ih =>
    rw [splitReusedTasks]
    cases takeReusable env reusable item with
    | none => exact (ih reusable).cons_cons item
    | some status => exact (ih (reusable.erase status)).cons item

theorem map_place_finalPrepared (items : List Prepared) (reusable : List ChildPayload) :
    (splitReusedTasks env reusable items).finalPrepared.map place = items.map place := by
  induction items generalizing reusable with
  | nil => rfl
  | cons item items ih =>
    rw [splitReusedTasks]
    cases takeReusable env reusable item with
    | none => exact congrArg (place item :: ·) (ih reusable)
    | some status => exact congrArg (place item :: ·) (ih (reusable.erase status))

/-- Each task has the id of a child that is reused, or is submitted. -/
theorem mem_finalPrepared (items : List Prepared) (reusable : List ChildPayload) :
    ∀ item ∈ (splitReusedTasks env reusable items).finalPrepared,
      item.taskId ∈ (splitReusedTasks env reusable items).reusedStatuses.map ChildPayload.taskId ∨
        item ∈ (splitReusedTasks env reusable items).toSubmit := by
  induction items generalizing reusable with
  | nil => exact List.forall_mem_nil _
  | cons first items ih =>
    rw [splitReusedTasks]
    cases takeReusable env reusable first with
    | none =>
      intro item hitem
      rcases List.mem_cons.mp hitem with rfl | hitem
      · exact Or.inr List.mem_cons_self
      · exact (ih reusable item hitem).imp_right (List.mem_cons_of_mem first)
    | some status =>
      intro item hitem
      rcases List.mem_cons.mp hitem with rfl | hitem
      · exact Or.inl List.mem_cons_self
      · exact (ih (reusable.erase status) item hitem).imp_left (List.mem_cons_of_mem _)

theorem toSubmit_subset (items : List Prepared) (reusable : List ChildPayload) :
    ∀ item ∈ (splitReusedTasks env reusable items).toSubmit,
      item ∈ (splitReusedTasks env reusable items).finalPrepared := by
  induction items generalizing reusable with
  | nil => exact List.forall_mem_nil _
  | cons first items ih =>
    rw [splitReusedTasks]
    cases takeReusable env reusable first with
    | none =>
      intro item hitem
      rcases List.mem_cons.mp hitem with rfl | hitem
      · exact List.mem_cons_self
      · exact List.mem_cons_of_mem _ (ih reusable item hitem)
    | some status =>
      intro item hitem
      exact List.mem_cons_of_mem _ (ih (reusable.erase status) item hitem)

/-- Each child that is reused stands for a task. -/
theorem reused_final (items : List Prepared) (reusable : List ChildPayload) :
    ∀ status ∈ (splitReusedTasks env reusable items).reusedStatuses,
      status.taskId ∈
        (splitReusedTasks env reusable items).finalPrepared.map PreparedTask.taskId := by
  induction items generalizing reusable with
  | nil => exact List.forall_mem_nil _
  | cons first items ih =>
    rw [splitReusedTasks]
    cases takeReusable env reusable first with
    | none => exact fun status hstatus => List.mem_cons_of_mem _ (ih reusable status hstatus)
    | some taken =>
      intro status hstatus
      rcases List.mem_cons.mp hstatus with rfl | hstatus
      · exact List.mem_cons_self
      · exact List.mem_cons_of_mem _ (ih (reusable.erase taken) status hstatus)

/-- Every id of a task that is submitted or reused comes from one of the two. -/
theorem map_taskId_finalPrepared (items : List Prepared) (reusable : List ChildPayload) :
    ((splitReusedTasks env reusable items).finalPrepared.map PreparedTask.taskId).Perm
      ((splitReusedTasks env reusable items).reusedStatuses.map ChildPayload.taskId ++
        (splitReusedTasks env reusable items).toSubmit.map PreparedTask.taskId) := by
  induction items generalizing reusable with
  | nil => exact List.Perm.refl _
  | cons first items ih =>
    rw [splitReusedTasks]
    cases takeReusable env reusable first with
    | none => exact ((ih reusable).cons first.taskId).trans List.perm_middle.symm
    | some taken => exact (ih (reusable.erase taken)).cons taken.taskId

/-! ## Which children are reused -/

section Ahead

variable {child status other : ChildPayload} {reusable : List ChildPayload}

theorem ahead_cons : ahead env child (other :: reusable) =
    if other = child then 0 else ahead env child reusable +
      if reuseKey env other.inputData = reuseKey env child.inputData then 1 else 0 := by
  unfold ahead
  by_cases heq : other = child
  · simp [heq]
  · simp [heq, List.countP_cons]

/-- A child with another key is not counted. -/
theorem ahead_erase_of_ne (h : reuseKey env status.inputData ≠ reuseKey env child.inputData) :
    ahead env child (reusable.erase status) = ahead env child reusable := by
  induction reusable with
  | nil => rfl
  | cons other reusable ih =>
    by_cases heq : other = status
    · have hne : other ≠ child := fun hsame => h (by rw [← heq, hsame])
      rw [heq, List.erase_cons_head, ahead_cons, if_neg (heq ▸ hne), if_neg h, Nat.add_zero]
    · rw [List.erase_cons_tail (by simpa using heq), ahead_cons, ahead_cons, ih]

/-- The first child with the key is. -/
theorem ahead_erase_first (hmem : child ∈ reusable) (hne : status ≠ child)
    (hfirst : reusable.find? (fun other =>
      reuseKey env other.inputData = reuseKey env child.inputData) = some status) :
    ahead env child reusable = ahead env child (reusable.erase status) + 1 := by
  induction reusable with
  | nil => cases hmem
  | cons other reusable ih =>
    rw [List.find?_cons] at hfirst
    by_cases hkey : reuseKey env other.inputData = reuseKey env child.inputData
    · obtain rfl : other = status := by simpa [hkey] using hfirst
      rw [List.erase_cons_head, ahead_cons, if_neg hne, if_pos hkey]
    · have hrest : reusable.find? (fun other =>
          reuseKey env other.inputData = reuseKey env child.inputData) = some status := by
        simpa [hkey] using hfirst
      have hstatus : reuseKey env status.inputData = reuseKey env child.inputData := by
        simpa using List.find?_some hrest
      have hother : other ≠ status := fun hsame => hkey (hsame ▸ hstatus)
      have hchild : other ≠ child := fun hsame => hkey (by rw [hsame])
      have htail : child ∈ reusable := (List.mem_cons.mp hmem).resolve_left hchild.symm
      rw [List.erase_cons_tail (by simpa using hother), ahead_cons, ahead_cons,
        if_neg hchild, if_neg hchild, if_neg hkey, ih htail hrest]

theorem ahead_of_first (hfirst : reusable.find? (fun other =>
    reuseKey env other.inputData = reuseKey env child.inputData) = some child) :
    ahead env child reusable = 0 := by
  induction reusable with
  | nil => rfl
  | cons other reusable ih =>
    rw [List.find?_cons] at hfirst
    by_cases hkey : reuseKey env other.inputData = reuseKey env child.inputData
    · obtain rfl : other = child := by simpa [hkey] using hfirst
      rw [ahead_cons, if_pos rfl]
    · have hchild : other ≠ child := fun hsame => hkey (by rw [hsame])
      rw [ahead_cons, if_neg hchild, if_neg hkey, ih (by simpa [hkey] using hfirst)]

theorem demand_cons (key : String) (items : List Prepared) :
    demand env key (item :: items) = demand env key items +
      if cacheDisabled item.inputData = false ∧ reuseKey env item.inputData = key then 1
      else 0 := by
  simp [demand, List.countP_cons]

/-- A child is reused exactly when more tasks want its key than there are children with the key in
front of it. -/
theorem mem_reusedStatuses_iff (items : List Prepared) (hmem : child ∈ reusable) :
    child ∈ (splitReusedTasks env reusable items).reusedStatuses ↔
      ahead env child reusable < demand env (reuseKey env child.inputData) items := by
  induction items generalizing reusable with
  | nil => exact iff_of_false List.not_mem_nil (Nat.not_lt_zero _)
  | cons item items ih =>
    rw [splitReusedTasks, demand_cons]
    cases htake : takeReusable env reusable item with
    | none =>
      have hnone : ¬(cacheDisabled item.inputData = false ∧
          reuseKey env item.inputData = reuseKey env child.inputData) := by
        rintro ⟨hcache, hkey⟩
        rw [takeReusable, hcache, if_neg Bool.false_ne_true, List.find?_eq_none] at htake
        exact htake child hmem (decide_eq_true hkey.symm)
      rw [if_neg hnone, Nat.add_zero]
      exact ih hmem
    | some status =>
      obtain ⟨hcache, hfirst⟩ := Option.ite_none_left_eq_some.mp htake
      have hcache : cacheDisabled item.inputData = false := by simpa using hcache
      have hstatus : reuseKey env status.inputData = reuseKey env item.inputData := by
        simpa using List.find?_some hfirst
      dsimp only
      by_cases hkey : reuseKey env item.inputData = reuseKey env child.inputData
      · rw [if_pos ⟨hcache, hkey⟩]
        rw [hkey] at hfirst
        by_cases hsame : status = child
        · subst hsame
          rw [ahead_of_first hfirst]
          exact iff_of_true List.mem_cons_self (Nat.succ_pos _)
        · rw [ahead_erase_first hmem hsame hfirst, Nat.add_lt_add_iff_right, List.mem_cons,
            or_iff_right fun heq => hsame heq.symm]
          exact ih ((List.mem_erase_of_ne fun heq => hsame heq.symm).mpr hmem)
      · have hne : status ≠ child := fun heq => hkey (by rw [← heq, hstatus])
        rw [if_neg fun h => hkey h.2, Nat.add_zero, List.mem_cons, or_iff_right hne.symm,
          ih ((List.mem_erase_of_ne hne.symm).mpr hmem),
          ahead_erase_of_ne fun heq => hkey (hstatus.symm.trans heq)]

end Ahead

/-! ## Sorting a stage -/

/-- The dependencies of a task have a status. -/
def DepsKnown (statusesById : Statuses) (item : Prepared) : Prop :=
  ∀ dep ∈ item.dependsOn, (statusesById.find dep).isSome

theorem readStatus_of_known {dep : String} (h : (statusesById.find dep).isSome) :
    ∃ entry, readStatus statusesById dep = .ok entry := by
  obtain ⟨entry, hentry⟩ := Option.isSome_iff_exists.mp h
  exact ⟨entry, by rw [readStatus, hentry]⟩

theorem mapM_readStatus_of_known {deps : List String}
    (h : ∀ dep ∈ deps, (statusesById.find dep).isSome) :
    ∃ entries, deps.mapM (readStatus statusesById) = .ok entries := by
  cases hentries : deps.mapM (readStatus statusesById) with
  | ok entries => exact ⟨entries, rfl⟩
  | error e =>
    obtain ⟨dep, hdep, herror⟩ := mapM_eq_error hentries
    obtain ⟨entry, hentry⟩ := readStatus_of_known (h dep hdep)
    rw [hentry] at herror
    cases herror

theorem blockedStatus_of_known (now : Int) (h : DepsKnown statusesById item) :
    ∃ status, blockedStatus now statusesById item = .ok status := by
  obtain ⟨entries, hentries⟩ := mapM_readStatus_of_known h
  exact ⟨_, by rw [blockedStatus, hentries]; rfl⟩

theorem withDependencyInput_of_known (h : DepsKnown statusesById item) :
    ∃ item', withDependencyInput env statusesById item = .ok item' := by
  unfold withDependencyInput
  split
  · exact ⟨item, rfl⟩
  · have hdeps : ∀ dep ∈ item.dependsOn.eraseDups, (statusesById.find dep).isSome :=
      fun dep hdep => h dep (List.mem_eraseDups.mp hdep)
    obtain ⟨entries, hentries⟩ := mapM_readStatus_of_known hdeps
    rw [hentries]
    exact ⟨_, rfl⟩

/-- The dependency results go into the input and nowhere else. -/
theorem withDependencyInput_frame {item' : Prepared}
    (h : withDependencyInput env statusesById item = .ok item') :
    item'.taskId = item.taskId ∧ place item' = place item ∧ item'.dependsOn = item.dependsOn ∧
      item'.onDepFailure = item.onDepFailure := by
  unfold withDependencyInput at h
  split at h
  · cases h
    exact ⟨rfl, rfl, rfl, rfl⟩
  · cases hentries : item.dependsOn.eraseDups.mapM (readStatus statusesById) with
    | error e =>
      rw [hentries] at h
      cases h
    | ok entries =>
      rw [hentries] at h
      cases h
      exact ⟨rfl, rfl, rfl, rfl⟩

/-- A blocked task has a status under its own id. -/
theorem taskId_of_blockedStatus {now : Int} {status : ChildPayload}
    (h : blockedStatus now statusesById item = .ok (some status)) :
    status.taskId = item.taskId := by
  unfold blockedStatus at h
  cases hentries : item.dependsOn.mapM (readStatus statusesById) with
  | error e =>
    rw [hentries] at h
    cases h
  | ok entries =>
    rw [hentries] at h
    obtain ⟨-, hstatus⟩ := Option.ite_none_right_eq_some.mp (Except.ok.inj h)
    cases hstatus
    rfl

/-- A task with the policy `block` that is not blocked. -/
theorem depsSucceeded_of_not_blocked {now : Int}
    (h : blockedStatus now statusesById item = .ok none) (hblock : item.onDepFailure = .block) :
    DepsSucceeded statusesById item := by
  unfold blockedStatus at h
  cases hentries : item.dependsOn.mapM (readStatus statusesById) with
  | error e =>
    rw [hentries] at h
    cases h
  | ok entries =>
    rw [hentries] at h
    have hfailed : (entries.filter fun entry => entry.2.status ≠ .succeeded).map Prod.fst = [] := by
      have hnone := Except.ok.inj h
      dsimp only at hnone
      by_contra hne
      rw [if_pos ⟨hne, hblock⟩] at hnone
      cases hnone
    intro dep hdep
    obtain ⟨entry, hentry, hread⟩ := mapM_eq_ok_mem hentries hdep
    have hfind : statusesById.find dep = some entry := by
      unfold readStatus at hread
      split at hread
      · cases hread
        assumption
      · cases hread
    have hnot := List.filter_eq_nil_iff.mp (List.map_eq_nil_iff.mp hfailed) entry hentry
    exact ⟨entry, hfind, by simpa using hnot⟩

/-- What is known of the parts of a stage. -/
structure SplitOf (env : Environment) (statusesById : Statuses) (stage : List Prepared)
    (answers : StageAnswers) (split : StageSplit) : Prop where
  places : (split.blocked.map (fun entry => place entry.1) ++
    split.reuse.finalPrepared.map place).Perm (stage.map place)
  blocked : ∀ entry ∈ split.blocked, entry.1 ∈ stage ∧
    blockedStatus answers.now statusesById entry.1 = .ok (some entry.2)
  submitted : ∀ item ∈ split.reuse.toSubmit, ∃ original ∈ stage,
    blockedStatus answers.now statusesById original = .ok none ∧
      item.taskId = original.taskId ∧ place item = place original ∧
      item.dependsOn = original.dependsOn ∧ item.onDepFailure = original.onDepFailure
  final : ∀ item ∈ split.reuse.finalPrepared,
    item.taskId ∈ split.reuse.reusedStatuses.map ChildPayload.taskId ∨
      item ∈ split.reuse.toSubmit
  submitted_final : ∀ item ∈ split.reuse.toSubmit, item ∈ split.reuse.finalPrepared
  ids : (split.blocked.map (fun entry => entry.1.taskId) ++
    split.reuse.toSubmit.map PreparedTask.taskId).Subperm (stage.map PreparedTask.taskId)
  final_ids : (split.reuse.finalPrepared.map PreparedTask.taskId).Perm
    (split.reuse.reusedStatuses.map ChildPayload.taskId ++
      split.reuse.toSubmit.map PreparedTask.taskId)
  reuse : ∀ children, answers.children = .ok children → split.reuse =
    splitReusedTasks env (groupReusable env answers.now children)
      (runnableTasks env statusesById answers.now stage)

theorem bind_eq_ok {ε α β : Type} {x : Except ε α} {f : α → Except ε β} {b : β}
    (h : (x >>= f) = .ok b) : ∃ a, x = .ok a ∧ f a = .ok b := by
  cases x with
  | error e => cases h
  | ok a => exact ⟨a, rfl, h⟩

theorem children_of_splitStage (h : splitStage env statusesById stage answers = .ok split) :
    ∃ children, answers.children = .ok children := by
  obtain ⟨sorted, -, h⟩ := bind_eq_ok h
  obtain ⟨runnable, -, h⟩ := bind_eq_ok h
  cases hchildren : answers.children with
  | ok children => exact ⟨children, rfl⟩
  | error message =>
    rw [hchildren] at h
    cases h

/-- The blocked tasks and the others are the tasks of the stage, whatever is read of them. -/
theorem sorted_perm {α : Type} (read : Prepared → α)
    (sorted : List (Prepared × Option ChildPayload)) :
    ((sorted.filterMap fun entry => entry.2.map fun status => (entry.1, status)).map
        (fun entry => read entry.1) ++
      ((sorted.filter fun entry => entry.2.isNone).map Prod.fst).map read).Perm
      ((sorted.map Prod.fst).map read) := by
  induction sorted with
  | nil => exact List.Perm.refl _
  | cons entry sorted ih =>
    obtain ⟨item, status⟩ := entry
    cases status with
    | none => exact List.perm_middle.trans (ih.cons (read item))
    | some status => exact ih.cons (read item)

/-- The tasks that are run are what the sorting leaves. -/
theorem runnableTasks_eq {now : Int} {sorted : List (Prepared × Option ChildPayload)}
    {runnable : List Prepared} (hfst : sorted.map Prod.fst = stage)
    (hstatus : ∀ entry ∈ sorted, blockedStatus now statusesById entry.1 = .ok entry.2)
    (hrunnable : ((sorted.filter fun entry => entry.2.isNone).map Prod.fst).mapM
      (withDependencyInput env statusesById) = .ok runnable) :
    runnableTasks env statusesById now stage = runnable := by
  subst hfst
  induction sorted generalizing runnable with
  | nil =>
    cases hrunnable
    rfl
  | cons entry sorted ih =>
    have hrest := fun other hother => hstatus other (List.mem_cons_of_mem entry hother)
    have hentry := hstatus entry List.mem_cons_self
    unfold runnableTasks at ih ⊢
    rw [List.map_cons, List.filterMap_cons, hentry]
    cases hnone : entry.2 with
    | none =>
      rw [List.filter_cons_of_pos (by rw [hnone]; rfl), List.map_cons] at hrunnable
      obtain ⟨item, items, hitem, hitems, rfl⟩ := mapM_cons_eq_ok hrunnable
      dsimp only
      rw [hitem, ih hrest hitems]
      rfl
    | some status =>
      rw [List.filter_cons_of_neg (by rw [hnone]; exact Bool.false_ne_true)] at hrunnable
      exact ih hrest hrunnable

theorem splitStage_spec (h : splitStage env statusesById stage answers = .ok split) :
    SplitOf env statusesById stage answers split := by
  obtain ⟨sorted, hsorted, h⟩ := bind_eq_ok h
  obtain ⟨runnable, hrunnable, h⟩ := bind_eq_ok h
  obtain ⟨hfst, hstatus⟩ := mapM_pair_eq_ok hsorted
  cases hchildren : answers.children with
  | error message =>
    rw [hchildren] at h
    cases h
  | ok children =>
    rw [hchildren] at h
    cases h
    have hmem : ∀ item ∈ runnable, ∃ entry ∈ sorted, entry.2 = none ∧
        withDependencyInput env statusesById entry.1 = .ok item := by
      intro item hitem
      obtain ⟨original, horiginal, hok⟩ := mem_of_mapM_eq_ok hrunnable hitem
      obtain ⟨entry, hentry, rfl⟩ := List.mem_map.mp horiginal
      obtain ⟨hin, hnone⟩ := List.mem_filter.mp hentry
      exact ⟨entry, hin, Option.isNone_iff_eq_none.mp hnone, hok⟩
    refine ⟨?_, ?_, ?_, mem_finalPrepared _ _, toSubmit_subset _ _, ?_,
      map_taskId_finalPrepared _ _, ?_⟩
    · have hplace : ∀ item item', withDependencyInput env statusesById item = .ok item' →
          place item' = place item := fun _ _ hok => (withDependencyInput_frame hok).2.1
      have hplaces := map_eq_map_of_mapM hplace hrunnable
      rw [map_place_finalPrepared, hplaces, ← hfst]
      exact sorted_perm place sorted
    · intro entry hentry
      obtain ⟨sortedEntry, hin, hsome⟩ := List.mem_filterMap.mp hentry
      obtain ⟨status, hstatusEq, rfl⟩ := Option.map_eq_some_iff.mp hsome
      exact ⟨hfst ▸ List.mem_map_of_mem hin, hstatusEq ▸ hstatus sortedEntry hin⟩
    · intro item hitem
      obtain ⟨entry, hentry, hnone, hok⟩ := hmem item ((toSubmit_sublist _ _).mem hitem)
      refine ⟨entry.1, hfst ▸ List.mem_map_of_mem hentry, ?_, withDependencyInput_frame hok⟩
      rw [← hnone]
      exact hstatus entry hentry
    · have hid : ∀ item item', withDependencyInput env statusesById item = .ok item' →
          item'.taskId = item.taskId := fun _ _ hok => (withDependencyInput_frame hok).1
      have hids := map_eq_map_of_mapM hid hrunnable
      have hall := sorted_perm PreparedTask.taskId sorted
      rw [← hids, hfst] at hall
      refine List.Subperm.trans ?_ hall.subperm
      exact (((toSubmit_sublist _ _).map PreparedTask.taskId).append_left _).subperm
    · intro children' hchildren'
      rw [hchildren] at hchildren'
      cases hchildren'
      rw [runnableTasks_eq hfst hstatus hrunnable]

/-- What a stage reuses are children, each at most once. -/
theorem SplitOf.reused (h : SplitOf env statusesById stage answers split)
    {children : List ChildPayload} (hchildren : answers.children = .ok children) :
    split.reuse.reusedStatuses.Subperm children := by
  rw [h.reuse children hchildren]
  refine (reusedStatuses_subperm _ _).trans ?_
  unfold groupReusable
  split
  · exact List.nil_subperm
  · exact (List.filter_sublist).subperm

variable (env answers) in
/-- With known dependencies, only the reading of the children can fail. -/
theorem splitStage_of_known (hknown : ∀ item ∈ stage, DepsKnown statusesById item) :
    (∃ split, splitStage env statusesById stage answers = .ok split) ∨
      ∃ message, answers.children = .error message ∧
        splitStage env statusesById stage answers = .error (.reuse message) := by
  obtain ⟨sorted, hsorted⟩ : ∃ sorted, (stage.mapM fun item =>
      (blockedStatus answers.now statusesById item).map fun status => (item, status)) =
        .ok sorted := by
    cases hsorted : stage.mapM fun item =>
        (blockedStatus answers.now statusesById item).map fun status => (item, status) with
    | ok sorted => exact ⟨sorted, rfl⟩
    | error e =>
      obtain ⟨item, hitem, herror⟩ := mapM_eq_error hsorted
      obtain ⟨status, hstatus⟩ := blockedStatus_of_known answers.now (hknown item hitem)
      rw [hstatus] at herror
      cases herror
  have hfst := (mapM_pair_eq_ok hsorted).1
  obtain ⟨runnable, hrunnable⟩ : ∃ runnable, ((sorted.filter fun entry => entry.2.isNone).map
      Prod.fst).mapM (withDependencyInput env statusesById) = .ok runnable := by
    cases hrunnable : ((sorted.filter fun entry => entry.2.isNone).map Prod.fst).mapM
        (withDependencyInput env statusesById) with
    | ok runnable => exact ⟨runnable, rfl⟩
    | error e =>
      obtain ⟨item, hitem, herror⟩ := mapM_eq_error hrunnable
      obtain ⟨entry, hentry, rfl⟩ := List.mem_map.mp hitem
      have hin : entry.1 ∈ stage := hfst ▸ List.mem_map_of_mem (List.mem_of_mem_filter hentry)
      obtain ⟨item', hitem'⟩ :
          ∃ item', withDependencyInput env statusesById entry.1 = .ok item' :=
        withDependencyInput_of_known (hknown _ hin)
      rw [hitem'] at herror
      cases herror
  unfold splitStage
  rw [hsorted]
  simp only [bind, Except.bind]
  rw [hrunnable]
  cases hchildren : answers.children with
  | error message => exact Or.inr ⟨message, rfl, rfl⟩
  | ok children => exact Or.inl ⟨_, rfl⟩

/-! ## Recording a stage -/

section Record

variable {statuses : List ChildPayload}

theorem statusByTaskId_eq_none {taskId : String} :
    statusByTaskId statuses taskId = none ↔ taskId ∉ statuses.map ChildPayload.taskId := by
  simp [statusByTaskId, List.find?_eq_none]

theorem taskId_of_statusByTaskId {taskId : String} {status : ChildPayload}
    (h : statusByTaskId statuses taskId = some status) : status.taskId = taskId := by
  simpa using List.find?_some h

/-- The statuses that are recorded for a list of tasks. -/
def recordedOf (statuses : List ChildPayload) (items : List Prepared) :
    List (String × ChildPayload) :=
  items.filterMap fun item =>
    (statusByTaskId statuses item.taskId).map fun status => (item.dagId, status)

theorem foldl_recordStatus (items : List Prepared) (s : DagContext) :
    items.foldl (recordStatus statuses) s =
      { s with
        statusesById := s.statusesById.putAll (recordedOf statuses items)
        allStatuses := s.allStatuses ++ (recordedOf statuses items).map Prod.snd } := by
  induction items generalizing s with
  | nil => simp [recordedOf, Table.putAll]
  | cons item items ih =>
    rw [List.foldl_cons, ih, recordStatus]
    cases hstatus : statusByTaskId statuses item.taskId with
    | none => simp [recordedOf, hstatus]
    | some status => simp [recordedOf, hstatus, Table.putAll]

/-- Where each task has a status, each is recorded once. -/
theorem map_recordedOf {items : List Prepared}
    (h : ∀ item ∈ items, item.taskId ∈ statuses.map ChildPayload.taskId) :
    (recordedOf statuses items).map Prod.fst = items.map PreparedTask.dagId ∧
      ((recordedOf statuses items).map Prod.snd).map ChildPayload.taskId =
        items.map PreparedTask.taskId := by
  induction items with
  | nil => exact ⟨rfl, rfl⟩
  | cons item items ih =>
    obtain ⟨hdag, hids⟩ := ih fun other hother => h other (List.mem_cons_of_mem item hother)
    cases hstatus : statusByTaskId statuses item.taskId with
    | none => exact absurd (h item List.mem_cons_self) (statusByTaskId_eq_none.mp hstatus)
    | some status =>
      have hid := taskId_of_statusByTaskId hstatus
      simp only [recordedOf, List.filterMap_cons, hstatus, Option.map_some, List.map_cons] at *
      exact ⟨congrArg _ hdag, by rw [hid, hids]⟩

theorem length_recordedOf_lt {items : List Prepared} (hitem : item ∈ items)
    (h : item.taskId ∉ statuses.map ChildPayload.taskId) :
    (recordedOf statuses items).length < items.length := by
  have hnone := statusByTaskId_eq_none.mpr h
  unfold recordedOf
  induction items with
  | nil => cases hitem
  | cons first items ih =>
    rcases List.mem_cons.mp hitem with rfl | hitem
    · rw [List.filterMap_cons_none (by rw [hnone]; rfl)]
      exact Nat.lt_succ_of_le (List.length_filterMap_le _ _)
    · have hlt := ih hitem
      rw [List.filterMap_cons]
      split
      · exact Nat.lt_succ_of_lt hlt
      · exact Nat.succ_lt_succ hlt

end Record

/-! ## The invariant -/

/-- The dependencies of a stage are in the stages before it. -/
def StagesLayered : (done : List String) → List (List Prepared) → Prop
  | _, [] => True
  | done, stage :: rest => (∀ item ∈ stage, ∀ dep ∈ item.dependsOn, dep ∈ done) ∧
      StagesLayered (done ++ stage.map PreparedTask.dagId) rest

theorem StagesLayered.mono {done done' : List String} {stages : List (List Prepared)}
    (hdone : ∀ a ∈ done, a ∈ done') (h : StagesLayered done stages) :
    StagesLayered done' stages := by
  induction stages generalizing done done' with
  | nil => trivial
  | cons stage stages ih =>
    refine ⟨fun item hitem dep hdep => hdone dep (h.1 item hitem dep hdep), ih ?_ h.2⟩
    intro a ha
    rcases List.mem_append.mp ha with ha | ha
    · exact List.mem_append_left _ (hdone a ha)
    · exact List.mem_append_right _ ha

structure Inv (prepared : List Prepared) (s : DagContext) : Prop where
  good : Good prepared s
  known : ∀ item ∈ s.finalPrepared, (s.statusesById.find item.dagId).isSome
  layered : StagesLayered (s.finalPrepared.map PreparedTask.dagId) s.rest
  unique : (∀ item ∈ prepared, item.dependsOn = []) ∨
    (prepared.map PreparedTask.dagId).Nodup
  origin : ∀ item ∈ s.rest.flatten, item ∈ prepared
  submitted_origin : ∀ item ∈ s.submitted, ∃ original ∈ prepared,
    item.dependsOn = original.dependsOn
  submitted_known : ∀ item ∈ s.submitted, ∀ dep ∈ item.dependsOn,
    dep ∈ s.finalPrepared.map PreparedTask.dagId
  ids : (s.rest.flatten.map PreparedTask.taskId).Nodup
  apart : ∀ id ∈ s.finalPrepared.map PreparedTask.taskId,
    id ∉ s.rest.flatten.map PreparedTask.taskId

theorem Inv.depsKnown (h : Inv prepared s) (hrest : s.rest = stage :: rest) :
    ∀ item ∈ stage, DepsKnown s.statusesById item := by
  intro item hitem dep hdep
  have hlayered := h.layered
  rw [hrest] at hlayered
  obtain ⟨done, hdone, rfl⟩ := List.mem_map.mp (hlayered.1 item hitem dep hdep)
  exact h.known done hdone

theorem Inv.raise (h : Inv prepared s) {r : Raised} (hr : r.fromQueue = true) :
    Inv prepared { s with raised := some r } :=
  { h with good := { h.good with raised := by rintro r' ⟨⟩; exact hr } }

theorem Inv.submit (h : Inv prepared s) (hrest : s.rest = stage :: rest)
    (hsplit : SplitOf env s.statusesById stage answers split) :
    Inv prepared { s with submitted := s.submitted ++ split.reuse.toSubmit } := by
  have hlayered := h.layered
  rw [hrest] at hlayered
  refine { h with
    good := { h.good with unblocked := ?_ }, submitted_origin := ?_, submitted_known := ?_ }
  · intro item hitem hblock
    rcases List.mem_append.mp hitem with hitem | hitem
    · exact h.good.unblocked item hitem hblock
    · obtain ⟨original, -, hnone, -, -, hdeps, hpolicy⟩ := hsplit.submitted item hitem
      intro dep hdep
      rw [hdeps] at hdep
      exact depsSucceeded_of_not_blocked hnone (hpolicy ▸ hblock) dep hdep
  · intro item hitem
    rcases List.mem_append.mp hitem with hitem | hitem
    · exact h.submitted_origin item hitem
    · obtain ⟨original, horiginal, -, -, -, hdeps, -⟩ := hsplit.submitted item hitem
      refine ⟨original, h.origin original ?_, hdeps⟩
      rw [hrest, List.flatten_cons]
      exact List.mem_append_left _ horiginal
  · intro item hitem dep hdep
    rcases List.mem_append.mp hitem with hitem | hitem
    · exact h.submitted_known item hitem dep hdep
    · obtain ⟨original, horiginal, -, -, -, hdeps, -⟩ := hsplit.submitted item hitem
      rw [hdeps] at hdep
      exact hlayered.1 original horiginal dep hdep

/-- The tasks of a stage that is recorded. -/
def StageSplit.items (split : StageSplit) : List Prepared :=
  split.blocked.map Prod.fst ++ split.reuse.finalPrepared

/-- The statuses of a stage that is recorded. -/
def StageSplit.statuses (split : StageSplit) (waited : List ChildPayload) : List ChildPayload :=
  split.blocked.map Prod.snd ++ split.reuse.reusedStatuses ++ waited

theorem recordStage_eq (s : DagContext) (rest : List (List Prepared)) (split : StageSplit)
    (waited : List ChildPayload) : recordStage s rest split waited =
      { s with
        rest := rest
        finalPrepared := s.finalPrepared ++ split.items
        reusedStatuses := s.reusedStatuses ++ split.reuse.reusedStatuses
        statusesById := s.statusesById.putAll (recordedOf (split.statuses waited) split.items)
        allStatuses := s.allStatuses ++
          (recordedOf (split.statuses waited) split.items).map Prod.snd } :=
  foldl_recordStatus _ _

theorem SplitOf.map_place (h : SplitOf env statusesById stage answers split) :
    (split.items.map place).Perm (stage.map place) := by
  rw [StageSplit.items, List.map_append, List.map_map]
  exact h.places

theorem SplitOf.map_dagId (h : SplitOf env statusesById stage answers split) :
    (split.items.map PreparedTask.dagId).Perm (stage.map PreparedTask.dagId) := by
  have hperm := h.map_place.map Prod.snd
  rwa [List.map_map, List.map_map] at hperm

/-- A task has the id that was made for it, or that of the child that is reused. -/
theorem SplitOf.map_taskId (h : SplitOf env statusesById stage answers split) :
    (split.items.map PreparedTask.taskId).Perm
      (split.reuse.reusedStatuses.map ChildPayload.taskId ++
        (split.blocked.map (fun entry => entry.1.taskId) ++
          split.reuse.toSubmit.map PreparedTask.taskId)) := by
  rw [StageSplit.items, List.map_append, List.map_map]
  exact (h.final_ids.append_left _).trans (List.perm_append_comm_assoc _ _ _)

theorem SplitOf.mem_map_taskId (h : SplitOf env statusesById stage answers split) {id : String}
    (hid : id ∈ split.items.map PreparedTask.taskId) :
    id ∈ split.reuse.reusedStatuses.map ChildPayload.taskId ∨
      id ∈ stage.map PreparedTask.taskId :=
  (List.mem_append.mp (h.map_taskId.mem_iff.mp hid)).imp_right fun hown => h.ids.subset hown

/-- Within a stage no id comes twice. -/
theorem SplitOf.nodup_items (h : SplitOf env statusesById stage answers split)
    (hnodup : (stage.map PreparedTask.taskId).Nodup) {children : List ChildPayload}
    (hchildren : answers.children = .ok children)
    (hids : (children.map ChildPayload.taskId).Nodup)
    (hfresh : ∀ child ∈ children, child.taskId ∉ stage.map PreparedTask.taskId) :
    (split.items.map PreparedTask.taskId).Nodup := by
  obtain ⟨reused, hperm, hsublist⟩ := h.reused hchildren
  obtain ⟨own, hownPerm, hownSublist⟩ := h.ids
  rw [h.map_taskId.nodup_iff, List.nodup_append]
  refine ⟨(hperm.map ChildPayload.taskId).nodup_iff.mp (hids.sublist (hsublist.map _)),
    hownPerm.nodup_iff.mp (hnodup.sublist hownSublist), ?_⟩
  rintro id hreused other hown rfl
  obtain ⟨child, hchild, rfl⟩ := List.mem_map.mp hreused
  exact hfresh child ((h.reused hchildren).subset hchild) (h.ids.subset hown)

theorem Inv.map_dagId (h : Inv prepared s) : (s.finalPrepared.map PreparedTask.dagId ++
    s.rest.flatten.map PreparedTask.dagId).Perm (prepared.map PreparedTask.dagId) := by
  have hperm := h.good.accounted.map Prod.snd
  rwa [List.map_append, List.map_map, List.map_map, List.map_map] at hperm

/-- A stage that comes to its end keeps the invariant, where each of its tasks has a status and
what it reuses is new. -/
theorem Inv.record (h : Inv prepared s) (hrest : s.rest = stage :: rest)
    (hsplit : SplitOf env statusesById stage answers split) {waited : List ChildPayload}
    (hall : ∀ item ∈ split.items, item.taskId ∈ (split.statuses waited).map
      ChildPayload.taskId)
    {children : List ChildPayload} (hchildren : answers.children = .ok children)
    (hfresh : answers.Fresh s.rest.flatten)
    (hnew : ∀ status ∈ split.reuse.reusedStatuses,
      status.taskId ∉ s.finalPrepared.map PreparedTask.taskId) :
    Inv prepared (recordStage s rest split waited) := by
  obtain ⟨hdag, hids⟩ := map_recordedOf hall
  have hflat : s.rest.flatten = stage ++ rest.flatten := by rw [hrest, List.flatten_cons]
  have haccounted := h.good.accounted
  have hnodupIds := h.ids
  rw [hflat, List.map_append] at haccounted hnodupIds
  rw [recordStage_eq]
  obtain ⟨hstageIds, hrestIds, hdisjoint⟩ := List.nodup_append.mp hnodupIds
  obtain ⟨hchildIds, hchildFresh⟩ := hfresh children hchildren
  have hapart := h.apart
  rw [hflat, List.map_append] at hapart hchildFresh
  refine ⟨⟨h.good.raised, ?_, ?_, ?_, ?_⟩, ?_, ?_, h.unique, ?_, h.submitted_origin, ?_,
    hrestIds, ?_⟩
  · rw [List.map_append, List.append_assoc]
    exact ((hsplit.map_place.append_right _).append_left _).trans haccounted
  · rw [List.map_append, List.map_append, hids, h.good.reported]
  · rw [List.map_append, List.nodup_append]
    refine ⟨h.good.used_once, hsplit.nodup_items hstageIds hchildren hchildIds
      fun child hchild hmem => hchildFresh child hchild (List.mem_append_left _ hmem), ?_⟩
    rintro id hold other hid rfl
    rcases hsplit.mem_map_taskId hid with hreused | hstage
    · obtain ⟨status, hstatus, rfl⟩ := List.mem_map.mp hreused
      exact hnew status hstatus hold
    · exact hapart id hold (List.mem_append_left _ hstage)
  · intro item hitem hblock dep hdep
    obtain ⟨entry, hentry, hsucceeded⟩ := h.good.unblocked item hitem hblock dep hdep
    refine ⟨entry, ?_, hsucceeded⟩
    rw [← hentry]
    refine Table.find_putAll_of_notMem _ _ fun hmem => ?_
    rcases h.unique with hnone | hunique
    · obtain ⟨original, horiginal, hdeps⟩ := h.submitted_origin item hitem
      rw [hdeps, hnone original horiginal] at hdep
      cases hdep
    · have hnd := h.map_dagId.nodup_iff.mpr hunique
      rw [hflat, List.map_append] at hnd
      have hstage : dep ∈ stage.map PreparedTask.dagId :=
        hsplit.map_dagId.mem_iff.mp (hdag ▸ hmem)
      exact (List.nodup_append.mp hnd).2.2 _ (h.submitted_known item hitem dep hdep) _
        (List.mem_append_left _ hstage) rfl
  · intro item hitem
    rcases List.mem_append.mp hitem with hitem | hitem
    · exact Table.isSome_find_putAll _ (h.known item hitem)
    · refine Table.isSome_find_putAll_of_mem _ _ ?_
      exact hdag ▸ List.mem_map_of_mem hitem
  · have hlayered := h.layered
    rw [hrest] at hlayered
    refine hlayered.2.mono fun a ha => ?_
    rw [List.map_append, List.mem_append, hsplit.map_dagId.mem_iff]
    exact List.mem_append.mp ha
  · exact fun item hitem => h.origin item (hflat ▸ List.mem_append_right _ hitem)
  · intro item hitem dep hdep
    rw [List.map_append]
    exact List.mem_append_left _ (h.submitted_known item hitem dep hdep)
  · intro id hid hcoming
    rw [List.map_append, List.mem_append] at hid
    rcases hid with hold | hid
    · exact hapart id hold (List.mem_append_right _ hcoming)
    rcases hsplit.mem_map_taskId hid with hreused | hstage
    · obtain ⟨status, hstatus, rfl⟩ := List.mem_map.mp hreused
      exact hchildFresh status ((hsplit.reused hchildren).subset hstatus)
        (List.mem_append_right _ hcoming)
    · exact hdisjoint id hstage id hcoming rfl

/-! ## A stage that is careful, and one that is not -/

theorem step_eq_some (hstep : (machine env).step s answers = some t) :
    ∃ stage rest, s.raised = none ∧ s.rest = stage :: rest ∧ answers.Fresh s.rest.flatten ∧
      t = runStage env s stage rest answers := by
  have hstep : step env s answers = some t := hstep
  unfold step at hstep
  split at hstep
  · rename_i stage rest hraised hrest
    obtain ⟨hfresh, hnext⟩ := Option.ite_none_right_eq_some.mp hstep
    refine ⟨stage, rest, hraised, hrest, ?_, (Option.some.inj hnext).symm⟩
    rw [hrest, List.flatten_cons]
    exact hfresh
  · cases hstep

theorem taskId_mem_waited {toSubmit : List Prepared} {waited : List ChildPayload}
    (hwait : waitForPreparedTasks answers toSubmit = .ok waited) (hitem : item ∈ toSubmit) :
    ∃ endings, answers.wait = .ok endings ∧
      waited = toSubmit.filterMap fun item =>
        (endings item.taskId).map (waitedPayload answers.now item) := by
  rw [waitForPreparedTasks, if_neg (List.ne_nil_of_mem hitem)] at hwait
  cases hendings : answers.wait with
  | error message =>
    rw [hendings] at hwait
    cases hwait
  | ok endings =>
    rw [hendings] at hwait
    exact ⟨endings, rfl, (Except.ok.inj hwait).symm⟩

theorem waitForPreparedTasks_of_completes (h : Completes answers split) :
    ∃ waited, waitForPreparedTasks answers split.reuse.toSubmit = .ok waited := by
  unfold waitForPreparedTasks
  split
  · exact ⟨_, rfl⟩
  · rename_i hne
    obtain ⟨endings, hendings⟩ := h.2.resolve_left hne
    rw [hendings]
    exact ⟨_, rfl⟩

theorem completes_of_ok {waited : List ChildPayload} (hsubmit : answers.submit = .ok ())
    (hwait : waitForPreparedTasks answers split.reuse.toSubmit = .ok waited) :
    Completes answers split := by
  refine ⟨hsubmit, ?_⟩
  by_cases hnil : split.reuse.toSubmit = []
  · exact Or.inl hnil
  · obtain ⟨item, hitem⟩ := List.exists_mem_of_ne_nil _ hnil
    obtain ⟨endings, hendings, -⟩ := taskId_mem_waited hwait hitem
    exact Or.inr ⟨endings, hendings⟩

/-- Where the waiting has a status for all that was submitted, every task of the stage has one. -/
theorem SplitOf.all_reported (h : SplitOf env statusesById stage answers split)
    {waited : List ChildPayload}
    (hwait : waitForPreparedTasks answers split.reuse.toSubmit = .ok waited)
    (hall : ∀ endings, answers.wait = .ok endings → ∀ item ∈ split.reuse.toSubmit,
      (endings item.taskId).isSome) :
    ∀ item ∈ split.items, item.taskId ∈ (split.statuses waited).map ChildPayload.taskId := by
  intro item hitem
  rw [StageSplit.statuses, List.map_append, List.map_append, List.mem_append, List.mem_append]
  rcases List.mem_append.mp hitem with hitem | hitem
  · obtain ⟨entry, hentry, rfl⟩ := List.mem_map.mp hitem
    rw [← taskId_of_blockedStatus (h.blocked entry hentry).2]
    exact Or.inl (Or.inl (List.mem_map_of_mem (List.mem_map_of_mem hentry)))
  · rcases h.final item hitem with hreused | hsubmitted
    · exact Or.inl (Or.inr hreused)
    · obtain ⟨endings, hendings, rfl⟩ := taskId_mem_waited hwait hsubmitted
      obtain ⟨ending, hending⟩ :=
        Option.isSome_iff_exists.mp (hall endings hendings item hsubmitted)
      refine Or.inr (List.mem_map.mpr ⟨waitedPayload answers.now item ending, ?_, rfl⟩)
      exact List.mem_filterMap.mpr ⟨item, hsubmitted, by rw [hending]; rfl⟩

/-- A task that has disappeared has no status of its own, and none of another task. -/
theorem SplitOf.not_reported (h : SplitOf env statusesById stage answers split)
    (hnodup : (stage.map PreparedTask.taskId).Nodup) {children : List ChildPayload}
    (hchildren : answers.children = .ok children)
    (hfresh : ∀ child ∈ children, child.taskId ∉ stage.map PreparedTask.taskId)
    {waited : List ChildPayload}
    (hwait : waitForPreparedTasks answers split.reuse.toSubmit = .ok waited)
    {endings : String → Option Ending} (hendings : answers.wait = .ok endings)
    (hitem : item ∈ split.reuse.toSubmit) (hgone : endings item.taskId = none) :
    item.taskId ∉ (split.statuses waited).map ChildPayload.taskId := by
  obtain ⟨original, horiginal, hnone, hid, -⟩ := h.submitted item hitem
  rw [StageSplit.statuses, List.map_append, List.map_append, List.mem_append, List.mem_append]
  rintro ((hblocked | hreused) | hwaited)
  · obtain ⟨status, hstatus, hsame⟩ := List.mem_map.mp hblocked
    obtain ⟨entry, hentry, rfl⟩ := List.mem_map.mp hstatus
    obtain ⟨hin, hsome⟩ := h.blocked entry hentry
    rw [taskId_of_blockedStatus hsome] at hsame
    have heq := List.inj_on_of_nodup_map hnodup hin horiginal (hsame.trans hid)
    rw [heq, hnone] at hsome
    cases hsome
  · obtain ⟨status, hstatus, hsame⟩ := List.mem_map.mp hreused
    refine hfresh status ((h.reused hchildren).subset hstatus) ?_
    rw [hsame, hid]
    exact List.mem_map_of_mem horiginal
  · obtain ⟨endings', hendings', rfl⟩ := taskId_mem_waited hwait hitem
    rw [hendings] at hendings'
    cases hendings'
    obtain ⟨status, hstatus, hsame⟩ := List.mem_map.mp hwaited
    obtain ⟨other, -, hsome⟩ := List.mem_filterMap.mp hstatus
    obtain ⟨ending, hending, rfl⟩ := Option.map_eq_some_iff.mp hsome
    have hsame : other.taskId = item.taskId := hsame
    rw [hsame, hgone] at hending
    cases hending

theorem inv_step (h : Inv prepared s) (hcareful : Careful env s answers)
    (hstep : (machine env).step s answers = some t) : Inv prepared t := by
  obtain ⟨stage, rest, -, hrest, hfresh, rfl⟩ := step_eq_some hstep
  rw [Careful, hrest] at hcareful
  obtain ⟨⟨children, hchildren⟩, hcomplete⟩ := hcareful
  have hreadable : ∀ message, answers.children ≠ .error message := by
    intro message hmessage
    rw [hchildren] at hmessage
    cases hmessage
  obtain ⟨split, hok⟩ := (splitStage_of_known env answers (h.depsKnown hrest)).resolve_right
    fun ⟨message, hmessage, _⟩ => hreadable message hmessage
  have hsplit := splitStage_spec hok
  have hsubmit := h.submit hrest hsplit
  rw [runStage, hok]
  dsimp only
  split
  · exact hsubmit.raise rfl
  · rename_i hsubmitted
    split
    · exact hsubmit.raise rfl
    · rename_i waited hwait
      obtain ⟨hanswered, hnew⟩ := hcomplete split hok (completes_of_ok hsubmitted hwait)
      refine hsubmit.record hrest hsplit (hsplit.all_reported hwait hanswered) hchildren hfresh
        fun status hstatus hused => ?_
      have hreusable := hnew children hchildren
      rw [hsplit.reuse children hchildren] at hstatus
      have hgroup := (reusedStatuses_subperm _ _).subset hstatus
      exact absurd ((mem_reusedStatuses_iff _ hgroup).mp hstatus)
        (Nat.not_lt.mpr (hreusable status hgroup hused))

theorem bad_step (h : Inv prepared s) (hcareful : ¬Careful env s answers)
    (hstep : (machine env).step s answers = some t) : ¬Good prepared t := by
  obtain ⟨stage, rest, -, hrest, hfresh, rfl⟩ := step_eq_some hstep
  rw [Careful, hrest] at hcareful
  intro hgood
  rcases splitStage_of_known env answers (h.depsKnown hrest) with
    ⟨split, hok⟩ | ⟨message, -, herror⟩
  · refine hcareful ⟨?_, fun split' hok' hcompletes => ?_⟩
    · exact children_of_splitStage hok
    · obtain rfl : split = split' := Except.ok.inj (hok.symm.trans hok')
      have hsplit := splitStage_spec hok
      obtain ⟨waited, hwait⟩ := waitForPreparedTasks_of_completes hcompletes
      have ht : runStage env s stage rest answers =
          recordStage { s with submitted := s.submitted ++ split.reuse.toSubmit } rest split
            waited := by
        rw [runStage, hok]
        simp only [hcompletes.1, hwait]
      rw [ht, recordStage_eq] at hgood
      refine ⟨fun endings hendings item hitem => ?_,
        fun children hchildren child hchild hused => ?_⟩
      · by_contra hgone
        rw [Option.not_isSome_iff_eq_none] at hgone
        obtain ⟨children, hchildren⟩ := children_of_splitStage hok
        have hids := h.ids
        have hcoming := (hfresh children hchildren).2
        rw [hrest, List.flatten_cons, List.map_append] at hids hcoming
        have hnot := hsplit.not_reported hids.of_append_left hchildren
          (fun child hchild hmem => hcoming child hchild (List.mem_append_left _ hmem)) hwait
          hendings hitem hgone
        have hmem : item ∈ split.items :=
          List.mem_append_right _ (hsplit.submitted_final item hitem)
        have hlt := length_recordedOf_lt hmem hnot
        have hlength := congrArg List.length hgood.reported
        have hold := congrArg List.length h.good.reported
        simp only [List.length_map, List.length_append] at hlength hold
        omega
      · by_contra hfew
        have htaken := (mem_reusedStatuses_iff _ hchild).mpr (Nat.not_le.mp hfew)
        have hfinal := reused_final _ _ child htaken
        rw [← hsplit.reuse children hchildren] at hfinal
        have hnodup := hgood.used_once
        rw [List.map_append, List.nodup_append, StageSplit.items, List.map_append] at hnodup
        exact hnodup.2.2 _ hused _ (List.mem_append_right _ hfinal) rfl
  · rw [runStage, herror] at hgood
    have hraised := hgood.raised _ rfl
    cases hraised

/-! ## A whole call -/

theorem stagesLayered_filterMap {needs : String → List String} {done : List String}
    {ls : List (List String)} (hneeds : ∀ item ∈ prepared, item.dependsOn = needs item.dagId)
    (hids : ∀ layer ∈ ls, ∀ id ∈ layer, id ∈ prepared.map PreparedTask.dagId)
    (h : Layered needs done ls) :
    StagesLayered done (ls.map fun layer => layer.filterMap (byId prepared)) := by
  induction ls generalizing done with
  | nil => trivial
  | cons layer ls ih =>
    refine ⟨fun item hitem dep hdep => ?_, ?_⟩
    · obtain ⟨id, hid, hfind⟩ := List.mem_filterMap.mp hitem
      have hmem := List.mem_of_find?_eq_some hfind
      obtain rfl : item.dagId = id := by simpa using List.find?_some hfind
      rw [hneeds item hmem] at hdep
      exact h.1 item.dagId hid dep hdep
    · rw [map_dagId_filterMap_byId (hids layer List.mem_cons_self)]
      exact ih (fun other hother => hids other (List.mem_cons_of_mem layer hother)) h.2

theorem stagesLayered_of_resolveStages {stages : List (List Prepared)}
    (hstages : resolveStages prepared = .ok stages) : StagesLayered [] stages := by
  by_cases hdep : ∃ item ∈ prepared, item.dependsOn ≠ []
  · have hadmitted := admitted_of_isOk hdep hstages
    rw [resolveStages_of_admitted hdep hadmitted] at hstages
    cases hls : layers (dependenciesOf (prepared.map agentTask))
        (prepared.map PreparedTask.dagId) with
    | none =>
      rw [hls] at hstages
      cases hstages
    | some ls =>
      rw [hls] at hstages
      cases hstages
      refine stagesLayered_filterMap (fun item hitem => ?_) (fun layer hlayer id hid => ?_)
        (layers_layered hls)
      · exact (dependenciesOf_role hadmitted.nodup (List.mem_map_of_mem hitem)).symm
      · exact (layers_perm hls).mem_iff.mp (List.mem_flatten.mpr ⟨layer, hlayer, hid⟩)
  · rw [resolveStages, if_pos (by simpa using hdep)] at hstages
    cases hstages
    refine ⟨fun item hitem dep hmem => ?_, trivial⟩
    exact absurd ⟨item, hitem, List.ne_nil_of_mem hmem⟩ hdep

theorem inv_start {stages : List (List Prepared)} (hstages : resolveStages prepared = .ok stages)
    (hids : (prepared.map PreparedTask.taskId).Nodup) : Inv prepared { rest := stages } := by
  have hperm := resolveStages_perm hstages
  refine ⟨⟨fun _ h => (Option.some_ne_none _ h.symm).elim, ?_, rfl, List.nodup_nil,
    List.forall_mem_nil _⟩, List.forall_mem_nil _, stagesLayered_of_resolveStages hstages,
    ?_, fun item hitem => hperm.mem_iff.mp hitem, List.forall_mem_nil _, List.forall_mem_nil _, ?_,
    List.forall_mem_nil _⟩
  · exact hperm.map place
  · by_cases hdep : ∃ item ∈ prepared, item.dependsOn ≠ []
    · exact Or.inr (admitted_iff.mp (admitted_of_isOk hdep hstages)).2.1
    · exact Or.inl (by simpa using hdep)
  · exact (hperm.map PreparedTask.taskId).nodup_iff.mpr hids

/-- One status for each of the tasks. -/
structure Reported (prepared : List Prepared) (result : DagRunResult) : Prop where
  tasks : (result.prepared.map place).Perm (prepared.map place)
  statuses : (result.statuses.map ChildPayload.taskId).Perm
    (result.prepared.map PreparedTask.taskId)

theorem reported_of_good (h : Good prepared s) (hrest : s.rest = []) :
    Reported prepared s.result := by
  have hsort := List.perm_insertionSort (fun a b : Prepared => a.index ≤ b.index) s.finalPrepared
  have haccounted := h.accounted
  rw [hrest, List.flatten_nil, List.map_nil, List.append_nil] at haccounted
  refine ⟨(hsort.map place).trans haccounted, ?_⟩
  rw [DagContext.result, h.reported]
  exact (hsort.map PreparedTask.taskId).symm

/-- A call accounts for its tasks, in every state that it passes through, exactly when all its
stages are careful; and then its result has one status for each task. -/
theorem always_accounted_iff_careful (env : Environment) {stages : List (List Prepared)}
    (hstages : resolveStages prepared = .ok stages)
    (hids : (prepared.map PreparedTask.taskId).Nodup) {as : List StageAnswers}
    (hrun : (machine env).run { rest := stages } as = some t) :
    ((machine env).Always (Good prepared) { rest := stages } as ↔
      (machine env).Meets (Careful env) { rest := stages } as) ∧
    ((machine env).Meets (Careful env) { rest := stages } as → t.rest = [] →
      Reported prepared t.result) := by
  have hstart := inv_start hstages hids
  have hgood : ∀ s a t, Inv prepared s → Careful env s a → (machine env).step s a = some t →
      Inv prepared t := fun _ _ _ => inv_step
  refine ⟨?_, fun hmeets hrest => ?_⟩
  · exact (machine env).always_iff_meets (fun _ h => h.good) hgood
      (fun _ _ _ => bad_step) hstart hrun
  · have hinv := (machine env).run_invariant_of_meets hgood hstart hmeets hrun
    exact reported_of_good hinv.good hrest

/-! ## Two calls -/

/-- A digest that keeps the first characters, and dicts that show their keys. -/
def plainTexts : Environment where
  sha16 text := String.ofList (text.take 16)
  strDict results := String.intercalate ", " (results.map Prod.fst)
  reuseTtlSeconds := 3600

def reportCall : List Prepared :=
  [{ index := 1, taskId := "sub-agent-1", label := "report", timeoutSeconds := 120,
     inputData := { input := "report" }, dagId := "report", dependsOn := ["scan"] },
    { index := 2, taskId := "sub-agent-2", label := "scan", timeoutSeconds := 120,
      inputData := { input := "scan" }, dagId := "scan" }]

/-- An earlier call has scanned already. -/
def scanned : ChildPayload where
  taskId := "sub-agent-0"
  inputData := { input := "scan" }
  status := .succeeded
  createdAt := 100

def readily : List StageAnswers :=
  [{ children := .ok [scanned], now := 200, submit := .ok (), wait := .error "not waited for" },
    { children := .ok [scanned], now := 210, submit := .ok ()
      wait := .ok fun _ => some { status := .failed, error := "boom" } }]

theorem resolveStages_reportCall :
    resolveStages reportCall = .ok (reportCall.reverse.map fun item => [item]) := by decide +kernel

def readilyStart : DagContext := { rest := reportCall.reverse.map fun item => [item] }

theorem run_readily : ((machine plainTexts).run readilyStart readily).map
    (fun s => (s.rest, s.raised)) = some ([], none) := by decide +kernel

theorem readily_isSome : ((machine plainTexts).run readilyStart readily).isSome := by
  obtain ⟨s, hs, -⟩ := Option.map_eq_some_iff.mp run_readily
  rw [hs, Option.isSome_some]

def readilyEnd : DagContext := (machine plainTexts).after readilyStart readily readily_isSome

/-- The scan is reused, the report is submitted and fails: both are accounted for. -/
theorem readily_reported : readilyEnd.rest = [] ∧ readilyEnd.raised = none ∧
    Reported reportCall readilyEnd.result ∧
    (machine plainTexts).Always (Good reportCall) readilyStart readily := by
  have hrun : (machine plainTexts).run readilyStart readily = some readilyEnd :=
    (Option.some_get readily_isSome).symm
  have hends := run_readily
  rw [hrun, Option.map_some, Option.some.injEq, Prod.mk.injEq] at hends
  obtain ⟨hrest, hraised⟩ := hends
  have hids : (reportCall.map PreparedTask.taskId).Nodup := by decide
  obtain ⟨halways, hreported⟩ :=
    always_accounted_iff_careful plainTexts resolveStages_reportCall hids hrun
  have hmeets : (machine plainTexts).Meets (Careful plainTexts) readilyStart readily := by
    decide +kernel
  exact ⟨hrest, hraised, hreported hmeets hrest, halways.mpr hmeets⟩

/-- The scan disappears from the queue before the waiting ends. -/
def disappearing : List StageAnswers :=
  [{ children := .ok [], now := 200, submit := .ok (), wait := .ok fun _ => none },
    { children := .ok [], now := 900, submit := .ok (), wait := .error "not waited for" }]

theorem run_disappearing : ((machine plainTexts).run readilyStart disappearing).map
    (fun s => s.raised) = some (some (.key "scan")) := by decide +kernel

theorem disappearing_isSome :
    ((machine plainTexts).run readilyStart disappearing).isSome := by
  obtain ⟨s, hs, -⟩ := Option.map_eq_some_iff.mp run_disappearing
  rw [hs, Option.isSome_some]

def disappearingEnd : DagContext :=
  (machine plainTexts).after readilyStart disappearing disappearing_isSome

/-- Then it has no status, and the stage behind it ends with a `KeyError`. -/
theorem not_always_accounted : ¬∀ (env : Environment) (prepared : List Prepared)
    (stages : List (List Prepared)) (as : List StageAnswers) (t : DagContext),
    resolveStages prepared = .ok stages → (prepared.map PreparedTask.taskId).Nodup →
    (machine env).run { rest := stages } as = some t → Good prepared t := by
  intro hall
  have hgood := hall plainTexts reportCall _ disappearing disappearingEnd resolveStages_reportCall
    (by decide) (Option.some_get disappearing_isSome).symm
  have hraised := run_disappearing
  rw [show (machine plainTexts).run readilyStart disappearing = some disappearingEnd from
    (Option.some_get disappearing_isSome).symm, Option.map_some, Option.some.injEq] at hraised
  exact Bool.false_ne_true (hgood.raised _ hraised)

end NeuralHub.SubAgents.Spawn
