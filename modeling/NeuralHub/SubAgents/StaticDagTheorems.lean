/-
NeuralHub.SubAgents.StaticDagTheorems — which tasks the static DAG runs.

Every event of the log is justified by the events before it (`Justified`):
an invocation by the results of its dependencies, a result by an
invocation or by failed dependencies. That, and where the ids of the
tasks are (`Inv`), is all that a step has to preserve. When the run has
returned there is no place left for an id but the results, and the log
says of each task what the results say (`accounted_of_returned`).

That a run does return takes two more facts: it is never stuck
(`exists_step`), and its steps are bounded (`measure_step`).
-/
import Mathlib.Algebra.GroupWithZero.Nat
import NeuralHub.SubAgents.StaticDag

namespace NeuralHub.SubAgents

open NeuralHub.Lib

variable {tasks : List TaskSpec} {task : TaskSpec} {results results' : Results}
  {log : List Event} {id : String}

/-! ## What is to hold -/

/-- The dependencies that failed, in the order of `depends_on`. -/
def failedDependencies (task : TaskSpec) (results : Results) : List String :=
  task.dependsOn.filter fun dep => (results.find dep).any fun entry => entry.2.isFailure

/-- Each task has one result, and what was done for it is what the results ask for. -/
structure Accounted (tasks : List TaskSpec) (results : Results) (log : List Event) : Prop where
  one_result : (results.entries.map Prod.fst).Perm (tasks.map TaskSpec.id)
  at_most_once : ∀ pre id context post, log = pre ++ .invoked id context :: post →
    ∀ context', Event.invoked id context' ∉ pre
  invoked_iff : ∀ task ∈ tasks, (∃ context, Event.invoked task.id context ∈ log) ↔
    task.onDepFailure = .proceed ∨ ∀ dep ∈ task.dependsOn, ∀ result,
      results.find dep = some (dep, result) → result.status ≠ .failed ∧ result.status ≠ .unparsed
  after_dependencies : ∀ task ∈ tasks, ∀ pre context post,
    log = pre ++ .invoked task.id context :: post → ∀ dep ∈ task.dependsOn, ∃ result,
      results.find dep = some (dep, result) ∧ Event.settled dep result ∈ pre
  context_exact : ∀ task ∈ tasks, ∀ context, Event.invoked task.id context ∈ log → ∀ dep,
    context.find dep = if dep ∈ task.dependsOn then results.find dep else none
  blocked : ∀ task ∈ tasks, (∀ context, Event.invoked task.id context ∉ log) →
    failedDependencies task results ≠ [] ∧
      results.find task.id = some (task.id, blockedBy task (failedDependencies task results))

/-! ## Reading the results -/

/-- All dependencies have a result. -/
def Ready (results : Results) (task : TaskSpec) : Prop :=
  ∀ dep ∈ task.dependsOn, (results.find dep).isSome

def Unblocked (results : Results) (task : TaskSpec) : Prop :=
  failedDependencies task results = [] ∨ task.onDepFailure = .proceed

instance : Decidable (Unblocked results task) := by
  unfold Unblocked
  infer_instance

/-- `results'` has the results of `results`. -/
def Extends (results results' : Results) : Prop :=
  ∀ id entry, results.find id = some entry → results'.find id = some entry

theorem Ready.mono (h : Extends results results') (hready : Ready results task) :
    Ready results' task := by
  intro dep hdep
  obtain ⟨entry, hentry⟩ := Option.isSome_iff_exists.mp (hready dep hdep)
  exact Option.isSome_of_eq_some (h dep entry hentry)

theorem Ready.find_eq (h : Extends results results') (hready : Ready results task) {dep : String}
    (hdep : dep ∈ task.dependsOn) : results'.find dep = results.find dep := by
  obtain ⟨entry, hentry⟩ := Option.isSome_iff_exists.mp (hready dep hdep)
  rw [hentry, h dep entry hentry]

theorem Ready.failedDependencies_eq (h : Extends results results') (hready : Ready results task) :
    failedDependencies task results' = failedDependencies task results :=
  List.filter_congr fun _ hdep => by rw [hready.find_eq h hdep]

theorem Unblocked.mono (h : Extends results results') (hready : Ready results task)
    (hunblocked : Unblocked results task) : Unblocked results' task := by
  unfold Unblocked
  rwa [hready.failedDependencies_eq h]

theorem mapM_readResult {deps : List String} (h : ∀ dep ∈ deps, (results.find dep).isSome) :
    deps.mapM (readResult results) = .ok (deps.filterMap results.find) := by
  induction deps with
  | nil => rfl
  | cons dep deps ih =>
    obtain ⟨entry, hentry⟩ := Option.isSome_iff_exists.mp (h dep List.mem_cons_self)
    rw [List.mapM_cons, readResult, hentry, ih fun d hd => h d (List.mem_cons_of_mem dep hd),
      List.filterMap_cons_some hentry]
    rfl

theorem dependencyPairs_of_ready (hready : Ready results task) :
    dependencyPairs task results = .ok (task.dependsOn.filterMap results.find) :=
  mapM_readResult hready

theorem map_fst_filter_filterMap_find (deps : List String) :
    ((deps.filterMap results.find).filter fun entry => entry.2.isFailure).map Prod.fst =
      deps.filter fun dep => (results.find dep).any fun entry => entry.2.isFailure := by
  induction deps with
  | nil => rfl
  | cons dep deps ih =>
    cases hdep : results.find dep with
    | none => simp [hdep, ih]
    | some entry =>
      have hkey : entry.1 = dep := Table.key_of_find hdep
      by_cases hfailure : entry.2.isFailure = true
      · simp [hdep, hfailure, ih, hkey]
      · simp [hdep, hfailure, ih]

theorem blockedResult_of_ready (hready : Ready results task) :
    blockedResult task results = .ok (if Unblocked results task then none
      else some (blockedBy task (failedDependencies task results))) := by
  rw [blockedResult, dependencyPairs_of_ready hready, Except.map]
  simp only [map_fst_filter_filterMap_find]
  rfl

theorem taskContext_of_ready (hready : Ready results task) :
    ∃ context, taskContext task results = .ok context ∧
      ∀ dep, context.find dep = if dep ∈ task.dependsOn then results.find dep else none := by
  refine ⟨Table.empty.putAll (task.dependsOn.filterMap results.find), ?_, fun dep => ?_⟩
  · rw [taskContext, dependencyPairs_of_ready hready]
    rfl
  · rw [Table.find_putAll_filterMap_find]
    by_cases hdep : dep ∈ task.dependsOn
    · simp [hdep, hready dep hdep]
    · simp [hdep]

/-! ## The invariant -/

/-- `known` is a table of results that were settled in the past. -/
def Knows (known : Results) (past : List Event) : Prop :=
  ∀ entry ∈ known.entries, Event.settled entry.1 entry.2 ∈ past

/-- What must have happened before an event. -/
def Justified (tasks : List TaskSpec) (past : List Event) : Event → Prop
  | .invoked id context =>
    (∀ context, .invoked id context ∉ past) ∧ (∀ result, .settled id result ∉ past) ∧
    ∃ task ∈ tasks, task.id = id ∧ ∃ known, Knows known past ∧ Ready known task ∧
      Unblocked known task ∧
      ∀ dep, context.find dep = if dep ∈ task.dependsOn then known.find dep else none
  | .settled id result =>
    (∃ context, .invoked id context ∈ past) ∨
    ∃ task ∈ tasks, task.id = id ∧ ∃ known, Knows known past ∧ Ready known task ∧
      ¬Unblocked known task ∧ result = blockedBy task (failedDependencies task known)

theorem Knows.mono {known : Results} {past : List Event} (h : Knows known past)
    (later : List Event) : Knows known (past ++ later) :=
  fun entry hentry => List.mem_append_left later (h entry hentry)

/-- Every event is justified by those before it. -/
def AllJustified (tasks : List TaskSpec) (log : List Event) : Prop :=
  ∀ pre e post, log = pre ++ e :: post → Justified tasks pre e

theorem allJustified_nil : AllJustified tasks [] := by
  intro pre e post h
  simp at h

theorem AllJustified.snoc (h : AllJustified tasks log) {e : Event} (he : Justified tasks log e) :
    AllJustified tasks (log ++ [e]) := by
  intro pre x post hsplit
  rcases List.eq_nil_or_concat post with rfl | ⟨post, last, rfl⟩
  · obtain ⟨rfl, hxe⟩ := List.append_inj' hsplit rfl
    cases hxe
    exact he
  · rw [List.concat_eq_append, ← List.cons_append, ← List.append_assoc] at hsplit
    obtain ⟨rfl, -⟩ := List.append_inj' hsplit rfl
    exact h pre x post rfl

/-- Where an id has got to: the log and the slots agree. -/
structure SlotOk (tasks : List TaskSpec) (results : Results) (log : List Event) (slot : Slot) :
    Prop where
  task_mem : slot.task ∈ tasks
  ready : Ready results slot.task
  unblocked : Unblocked results slot.task
  running : slot.state = .running → ∃ context, .invoked slot.task.id context ∈ log
  finished : ∀ result, slot.state = .finished result → .settled slot.task.id result ∈ log

/-- In front of the tasks `ids` of a stage, with `slots` for those that are run, and `rest`
behind it. -/
structure Inv (tasks : List TaskSpec) (results : Results) (log : List Event) (ids : List String)
    (slots : List Slot) (rest : List ResolvedStage) : Prop where
  justified : AllJustified tasks log
  knows : Knows results log
  perm : (results.entries.map Prod.fst ++ (ids ++ (slots.map (·.task.id) ++
    rest.flatMap ResolvedStage.taskRoles))).Perm (tasks.map TaskSpec.id)
  settled : ∀ id result, .settled id result ∈ log →
    (id, result) ∈ results.entries ∨
      ∃ slot ∈ slots, slot.task.id = id ∧ slot.state = .finished result
  invoked : ∀ id context, .invoked id context ∈ log →
    id ∈ results.entries.map Prod.fst ∨ ∃ slot ∈ slots, slot.task.id = id ∧ slot.state ≠ .waiting
  slot : ∀ slot ∈ slots, SlotOk tasks results log slot
  ids_ready : ∀ id ∈ ids, ∀ task ∈ tasks, task.id = id → Ready results task
  layered : Layered (dependenciesOf (tasks.map TaskSpec.agentTask))
    (results.entries.map Prod.fst ++ (ids ++ slots.map (·.task.id)))
    (rest.map ResolvedStage.taskRoles)

/-- The invariant of a run. -/
def RunInv (tasks : List TaskSpec) (s : DagRun) : Prop :=
  match s.phase with
  | .between rest => Inv tasks s.results s.log [] [] rest
  | .scanning ids runnable rest =>
    Inv tasks s.results s.log ids (runnable.map fun task => ⟨task, .waiting⟩) rest
  | .gathering slots rest => Inv tasks s.results s.log [] slots rest
  | .returned => Inv tasks s.results s.log [] [] []
  | .raised _ => False

/-! ## Steps that keep the invariant -/

section Steps

variable {ids : List String} {slots : List Slot} {rest : List ResolvedStage}
  {stage : ResolvedStage} {i : Nat} {st st' : SlotState} {e : Event}

theorem map_role_agentTask :
    (tasks.map TaskSpec.agentTask).map AgentTask.role = tasks.map TaskSpec.id := by
  rw [List.map_map]
  rfl

theorem dependenciesOf_id (hnodup : (tasks.map TaskSpec.id).Nodup) (ht : task ∈ tasks) :
    dependenciesOf (tasks.map TaskSpec.agentTask) task.id = task.dependsOn :=
  have hroles : ((tasks.map TaskSpec.agentTask).map AgentTask.role).Nodup := by
    rwa [map_role_agentTask]
  dependenciesOf_role hroles (List.mem_map_of_mem (f := TaskSpec.agentTask) ht)

theorem extends_of_entries {xs : List (String × AgentResult)}
    (h : results'.entries = results.entries ++ xs) : Extends results results' := by
  intro id entry hfind
  rw [Table.find_eq_some_iff] at hfind ⊢
  exact ⟨h ▸ List.mem_append_left xs hfind.1, hfind.2⟩

theorem SlotOk.mono {slot : Slot} (h : SlotOk tasks results log slot)
    (hext : Extends results results') (later : List Event) :
    SlotOk tasks results' (log ++ later) slot where
  task_mem := h.task_mem
  ready := h.ready.mono hext
  unblocked := h.unblocked.mono hext h.ready
  running hstate := by
    obtain ⟨context, hcontext⟩ := h.running hstate
    exact ⟨context, List.mem_append_left later hcontext⟩
  finished result hstate := List.mem_append_left later (h.finished result hstate)

theorem extends_refl : Extends results results := fun _ _ h => h

theorem Inv.nodup (hnodup : (tasks.map TaskSpec.id).Nodup)
    (h : Inv tasks results log ids slots rest) :
    (results.entries.map Prod.fst ++ (ids ++ (slots.map (·.task.id) ++
      rest.flatMap ResolvedStage.taskRoles))).Nodup := h.perm.nodup_iff.mpr hnodup

/-- The slots of two tasks are one, if the ids are. -/
theorem Inv.slot_inj (hnodup : (tasks.map TaskSpec.id).Nodup)
    (h : Inv tasks results log ids slots rest) {slot slot' : Slot} (hs : slot ∈ slots)
    (hs' : slot' ∈ slots) (hid : slot.task.id = slot'.task.id) : slot = slot' := by
  have hslots := ((h.nodup hnodup).of_append_right.of_append_right).of_append_left
  exact List.inj_on_of_nodup_map hslots hs hs' hid

/-- A task that has a slot has no result yet. -/
theorem Inv.slot_fresh (hnodup : (tasks.map TaskSpec.id).Nodup)
    (h : Inv tasks results log ids slots rest) {slot : Slot} (hs : slot ∈ slots) :
    slot.task.id ∉ results.entries.map Prod.fst := by
  intro hmem
  refine (List.nodup_append.mp (h.nodup hnodup)).2.2 _ hmem _ ?_ rfl
  exact List.mem_append_right _ (List.mem_append_left _ (List.mem_map_of_mem hs))

theorem inv_start {stages : List ResolvedStage} (hstages : resolveTaskStages tasks = .ok stages) :
    Inv tasks Table.empty [] [] [] stages where
  justified := allJustified_nil
  knows := nofun
  perm := by
    have hperm := (resolveStages_spec hstages).perm
    rwa [map_role_agentTask] at hperm
  settled := nofun
  invoked := nofun
  slot := nofun
  ids_ready := nofun
  layered := by
    obtain ⟨ls, hls, rfl⟩ := layers_of_resolveStages hstages
    rw [map_taskRoles_numberStages]
    exact layers_layered hls

theorem Inv.openStage (hnodup : (tasks.map TaskSpec.id).Nodup)
    (h : Inv tasks results log [] [] (stage :: rest)) :
    Inv tasks results log stage.taskRoles [] rest := by
  refine { h with perm := ?_, ids_ready := ?_, layered := ?_ }
  · have hperm := h.perm
    rwa [List.flatMap_cons] at hperm
  · rintro id hid task ht rfl dep hdep
    rw [← dependenciesOf_id hnodup ht] at hdep
    have hmem := h.layered.1 task.id hid dep hdep
    rw [List.map_nil, List.append_nil, List.append_nil] at hmem
    exact Table.find_isSome_iff.mpr hmem
  · have hlayered := h.layered.2
    rw [List.map_nil, List.append_nil, List.append_nil] at hlayered
    rwa [List.map_nil, List.append_nil]

theorem Inv.addRunnable (h : Inv tasks results log (id :: ids) slots rest) (ht : task ∈ tasks)
    (hid : task.id = id) (hunblocked : Unblocked results task) :
    Inv tasks results log ids (slots ++ [⟨task, .waiting⟩]) rest := by
  subst hid
  refine ⟨h.justified, h.knows, ?_, ?_, ?_, ?_, ?_, ?_⟩
  · refine List.Perm.trans (List.Perm.append_left _ ?_) h.perm
    rw [List.map_append, List.map_singleton, List.append_assoc, List.singleton_append,
      ← List.append_assoc]
    exact List.perm_middle.trans (by rw [List.cons_append, List.append_assoc])
  · intro id result hmem
    refine (h.settled id result hmem).imp_right ?_
    rintro ⟨slot, hslot, hrest⟩
    exact ⟨slot, List.mem_append_left _ hslot, hrest⟩
  · intro id context hmem
    refine (h.invoked id context hmem).imp_right ?_
    rintro ⟨slot, hslot, hrest⟩
    exact ⟨slot, List.mem_append_left _ hslot, hrest⟩
  · intro slot hslot
    rcases List.mem_append.mp hslot with hslot | hslot
    · exact h.slot slot hslot
    · obtain rfl := List.mem_singleton.mp hslot
      exact ⟨ht, h.ids_ready _ List.mem_cons_self task ht rfl, hunblocked, nofun, nofun⟩
  · exact fun id hid => h.ids_ready id (List.mem_cons_of_mem _ hid)
  · refine h.layered.mono fun id hmem => ?_
    simp only [List.mem_append, List.mem_cons, List.map_append, List.map_singleton]
      at hmem ⊢
    tauto

theorem Inv.addBlocked (hnodup : (tasks.map TaskSpec.id).Nodup)
    (h : Inv tasks results log (task.id :: ids) slots rest) (ht : task ∈ tasks)
    (hblocked : ¬Unblocked results task) {result : AgentResult}
    (hresult : result = blockedBy task (failedDependencies task results)) :
    Inv tasks (results.put (task.id, result)) (log ++ [.settled task.id result]) ids slots
      rest := by
  have hfresh : task.id ∉ results.entries.map Prod.fst := by
    intro hmem
    exact (List.nodup_append.mp (h.nodup hnodup)).2.2 _ hmem _ List.mem_cons_self rfl
  have hentries : (results.put (task.id, result)).entries =
      results.entries ++ [(task.id, result)] := Table.entries_put_of_notMem hfresh
  have hext := extends_of_entries hentries
  have hready := h.ids_ready _ List.mem_cons_self task ht rfl
  refine ⟨h.justified.snoc (Or.inr ⟨task, ht, rfl, results, h.knows, hready, hblocked, hresult⟩),
    ?_, ?_, ?_, ?_, fun slot hslot => (h.slot slot hslot).mono hext _, ?_, ?_⟩
  · intro entry hentry
    rw [hentries, List.mem_append, List.mem_singleton] at hentry
    rcases hentry with hentry | rfl
    · exact List.mem_append_left _ (h.knows entry hentry)
    · exact List.mem_append_right _ List.mem_cons_self
  · rw [hentries, List.map_append, List.map_singleton, List.append_assoc, List.singleton_append]
    exact h.perm
  · intro id result' hmem
    rw [hentries]
    rcases List.mem_append.mp hmem with hmem | hmem
    · exact (h.settled id result' hmem).imp_left (List.mem_append_left _)
    · cases List.mem_singleton.mp hmem
      exact Or.inl (List.mem_append_right _ List.mem_cons_self)
  · intro id context hmem
    rw [hentries, List.map_append]
    rcases List.mem_append.mp hmem with hmem | hmem
    · exact (h.invoked id context hmem).imp_left (List.mem_append_left _)
    · cases List.mem_singleton.mp hmem
  · exact fun id hid other hother heq =>
      (h.ids_ready id (List.mem_cons_of_mem _ hid) other hother heq).mono hext
  · refine h.layered.mono fun id hmem => ?_
    rw [hentries]
    simp only [List.mem_append, List.mem_cons, List.map_append, List.map_singleton]
      at hmem ⊢
    tauto

theorem result?_eq_some {slot : Slot} {entry : String × AgentResult} :
    slot.result? = some entry ↔ slot.task.id = entry.1 ∧ slot.state = .finished entry.2 := by
  obtain ⟨slotTask, state⟩ := slot
  obtain ⟨entryId, result⟩ := entry
  cases state with
  | waiting => simp [Slot.result?]
  | running => simp [Slot.result?]
  | finished r => simp [Slot.result?]

/-- Where all slots have a result, the results are those of the slots. -/
theorem map_fst_filterMap_result? (hall : ∀ slot ∈ slots, slot.result?.isSome) :
    (slots.filterMap Slot.result?).map Prod.fst = slots.map (·.task.id) := by
  induction slots with
  | nil => rfl
  | cons slot slots ih =>
    obtain ⟨entry, hentry⟩ := Option.isSome_iff_exists.mp (hall slot List.mem_cons_self)
    rw [List.filterMap_cons_some hentry, List.map_cons, List.map_cons,
      ih fun other hother => hall other (List.mem_cons_of_mem slot hother),
      (result?_eq_some.mp hentry).1]

theorem Inv.collect (hnodup : (tasks.map TaskSpec.id).Nodup)
    (h : Inv tasks results log [] slots rest) (hall : ∀ slot ∈ slots, slot.result?.isSome) :
    Inv tasks (results.putAll (slots.filterMap Slot.result?)) log [] [] rest := by
  have hids := map_fst_filterMap_result? hall
  have hnd := h.nodup hnodup
  rw [List.nil_append, ← List.append_assoc, ← hids] at hnd
  have hentries := Table.entries_putAll_of_notMem hnd.of_append_left
  have hmem : ∀ entry : String × AgentResult, entry ∈ slots.filterMap Slot.result? ↔
      ∃ slot ∈ slots, slot.task.id = entry.1 ∧ slot.state = .finished entry.2 := by
    intro entry
    rw [List.mem_filterMap]
    exact exists_congr fun slot => and_congr_right fun _ => result?_eq_some
  refine ⟨h.justified, ?_, ?_, ?_, ?_, nofun, nofun, ?_⟩
  · intro entry hentry
    rw [hentries, List.mem_append, hmem] at hentry
    rcases hentry with hentry | ⟨slot, hslot, hid, hstate⟩
    · exact h.knows entry hentry
    · rw [← hid]
      exact (h.slot slot hslot).finished entry.2 hstate
  · rw [hentries, List.map_append, hids, List.append_assoc]
    exact h.perm
  · intro id result hsettled
    refine Or.inl ?_
    rw [hentries, List.mem_append, hmem]
    exact h.settled id result hsettled
  · intro id context hinvoked
    refine Or.inl ?_
    rw [hentries, List.map_append, hids, List.mem_append]
    rcases h.invoked id context hinvoked with hin | ⟨slot, hslot, rfl, -⟩
    · exact Or.inl hin
    · exact Or.inr (List.mem_map_of_mem hslot)
  · refine h.layered.mono fun id hid => ?_
    rw [hentries, List.map_append, hids]
    simpa using hid

theorem mem_set_of_ne {slot old new : Slot} (hi : slots[i]? = some old) (hslot : slot ∈ slots)
    (hne : slot ≠ old) : slot ∈ slots.set i new := by
  obtain ⟨j, hj⟩ := List.mem_iff_getElem?.mp hslot
  have hij : i ≠ j := by
    rintro rfl
    exact hne (Option.some.inj (hj.symm.trans hi))
  exact List.mem_iff_getElem?.mpr ⟨j, by rw [List.getElem?_set_ne hij, hj]⟩

theorem new_mem_set {old new : Slot} (hi : slots[i]? = some old) : new ∈ slots.set i new := by
  have hlt := (List.getElem?_eq_some_iff.mp hi).1
  exact List.mem_set hlt new

/-- One slot changes its state, with an event of its own. -/
theorem Inv.setSlot (h : Inv tasks results log ids slots rest)
    (hi : slots[i]? = some ⟨task, st⟩) (hst : ∀ result, st ≠ .finished result)
    (hst' : st' ≠ .waiting) (hjust : Justified tasks log e)
    (hok : SlotOk tasks results (log ++ [e]) ⟨task, st'⟩)
    (hsettled : ∀ id result, e = .settled id result → task.id = id ∧ st' = .finished result)
    (hinvoked : ∀ id context, e = .invoked id context → task.id = id) :
    Inv tasks results (log ++ [e]) ids (slots.set i ⟨task, st'⟩) rest := by
  have hids : (slots.set i ⟨task, st'⟩).map (·.task.id) = slots.map (·.task.id) := by
    refine List.ext_getElem? fun j => ?_
    rw [List.getElem?_map, List.getElem?_map]
    by_cases hij : i = j
    · subst hij
      rw [hi, List.getElem?_set_self (List.getElem?_eq_some_iff.mp hi).1]
      rfl
    · rw [List.getElem?_set_ne hij]
  refine ⟨h.justified.snoc hjust, h.knows.mono _, by rw [hids]; exact h.perm, ?_, ?_, ?_,
    h.ids_ready, by rw [hids]; exact h.layered⟩
  · intro id result hmem
    rcases List.mem_append.mp hmem with hmem | hmem
    · refine (h.settled id result hmem).imp_right ?_
      rintro ⟨slot, hslot, hid, hstate⟩
      refine ⟨slot, mem_set_of_ne hi hslot ?_, hid, hstate⟩
      rintro rfl
      exact hst result hstate
    · obtain ⟨hid, hstate⟩ := hsettled id result (List.mem_singleton.mp hmem).symm
      exact Or.inr ⟨_, new_mem_set hi, hid, hstate⟩
  · intro id context hmem
    rcases List.mem_append.mp hmem with hmem | hmem
    · refine (h.invoked id context hmem).imp_right ?_
      rintro ⟨slot, hslot, hid, hstate⟩
      by_cases heq : slot = ⟨task, st⟩
      · subst heq
        exact ⟨_, new_mem_set hi, hid, hst'⟩
      · exact ⟨slot, mem_set_of_ne hi hslot heq, hid, hstate⟩
    · have hid := hinvoked id context (List.mem_singleton.mp hmem).symm
      exact Or.inr ⟨_, new_mem_set hi, hid, hst'⟩
  · intro slot hslot
    rcases List.mem_or_eq_of_mem_set hslot with hslot | rfl
    · exact (h.slot slot hslot).mono extends_refl _
    · exact hok

theorem Inv.invoke (hnodup : (tasks.map TaskSpec.id).Nodup)
    (h : Inv tasks results log ids slots rest) (hi : slots[i]? = some ⟨task, .waiting⟩)
    {context : Results}
    (hcontext : ∀ dep, context.find dep = if dep ∈ task.dependsOn then results.find dep else none) :
    Inv tasks results (log ++ [.invoked task.id context]) ids
      (slots.set i ⟨task, .running⟩) rest := by
  have hmem : (⟨task, .waiting⟩ : Slot) ∈ slots := List.mem_of_getElem? hi
  have hslot := h.slot _ hmem
  refine h.setSlot hi nofun nofun ⟨fun context' hbefore => ?_, fun result hbefore => ?_, task,
    hslot.task_mem, rfl, results, h.knows, hslot.ready, hslot.unblocked, hcontext⟩
    ⟨hslot.task_mem, hslot.ready, hslot.unblocked, fun _ => ⟨context, by simp⟩, nofun⟩ nofun ?_
  · rcases h.invoked task.id context' hbefore with hin | ⟨slot, hother, hid, hstate⟩
    · exact h.slot_fresh hnodup hmem hin
    · obtain rfl := h.slot_inj hnodup hother hmem hid
      exact hstate rfl
  · rcases h.settled task.id result hbefore with hin | ⟨slot, hother, hid, hstate⟩
    · exact h.slot_fresh hnodup hmem (List.mem_map_of_mem hin)
    · obtain rfl := h.slot_inj hnodup hother hmem hid
      cases hstate
  · rintro id context' ⟨⟩
    rfl

theorem Inv.finish (h : Inv tasks results log ids slots rest)
    (hi : slots[i]? = some ⟨task, .running⟩) (result : AgentResult) :
    Inv tasks results (log ++ [.settled task.id result]) ids
      (slots.set i ⟨task, .finished result⟩) rest := by
  have hslot := h.slot _ (List.mem_of_getElem? hi)
  refine h.setSlot hi nofun nofun (Or.inl (hslot.running rfl))
    ⟨hslot.task_mem, hslot.ready, hslot.unblocked, nofun, ?_⟩ ?_ nofun
  · rintro result' ⟨⟩
    simp
  · rintro id result' ⟨⟩
    exact ⟨rfl, rfl⟩

theorem runInv_advance (hnodup : (tasks.map TaskSpec.id).Nodup) {s t : DagRun}
    (h : RunInv tasks s) (hstep : advance tasks s = some t) : RunInv tasks t := by
  obtain ⟨phase, results, log⟩ := s
  cases phase with
  | between rest =>
    cases rest with
    | nil =>
      cases hstep
      exact h
    | cons stage rest =>
      cases hstep
      exact Inv.openStage hnodup h
  | scanning ids runnable rest =>
    cases ids with
    | nil =>
      cases hstep
      exact h
    | cons id ids =>
      have h : Inv tasks results log (id :: ids)
        (runnable.map fun task => ⟨task, .waiting⟩) rest := h
      cases hstep
      have hid : id ∈ tasks.map TaskSpec.id := by
        refine h.perm.mem_iff.mp (List.mem_append_right _ ?_)
        exact List.mem_append_left _ List.mem_cons_self
      obtain ⟨task, hfind⟩ : ∃ task, taskMap tasks id = some task := by
        refine Option.isSome_iff_exists.mp (List.find?_isSome.mpr ?_)
        obtain ⟨task, ht, htid⟩ := List.mem_map.mp hid
        exact ⟨task, ht, decide_eq_true htid⟩
      have ht := List.mem_of_find?_eq_some hfind
      obtain rfl : task.id = id := by simpa using List.find?_some hfind
      rw [scan, hfind]
      dsimp only
      rw [blockedResult_of_ready (h.ids_ready task.id List.mem_cons_self task ht rfl)]
      by_cases hunblocked : Unblocked results task
      · rw [if_pos hunblocked]
        have hnext := h.addRunnable ht rfl hunblocked
        simpa [RunInv] using hnext
      · rw [if_neg hunblocked]
        exact h.addBlocked hnodup ht hunblocked rfl
  | gathering slots rest =>
    obtain ⟨hall, hnext⟩ := Option.ite_none_right_eq_some.mp hstep
    cases hnext
    exact Inv.collect hnodup h (List.all_eq_true.mp hall)
  | returned => cases hstep
  | raised message => cases hstep

/-- Every step keeps the invariant; none raises. -/
theorem runInv_step (hnodup : (tasks.map TaskSpec.id).Nodup) (s : DagRun) (a : Action)
    (t : DagRun) (h : RunInv tasks s) (hstep : (machine tasks).step s a = some t) :
    RunInv tasks t := by
  have hstep : step tasks s a = some t := hstep
  cases a with
  | advance => exact runInv_advance hnodup h hstep
  | invoke i =>
    obtain ⟨phase, results, log⟩ := s
    cases phase with
    | gathering slots rest =>
      have h : Inv tasks results log [] slots rest := h
      simp only [step] at hstep
      split at hstep
      · rename_i task hi
        have hready := (h.slot _ (List.mem_of_getElem? hi)).ready
        obtain ⟨context, hcontext, hfind⟩ := taskContext_of_ready hready
        rw [hcontext] at hstep
        cases hstep
        exact h.invoke hnodup hi hfind
      · cases hstep
    | _ => cases hstep
  | finish i outcome =>
    obtain ⟨phase, results, log⟩ := s
    cases phase with
    | gathering slots rest =>
      have h : Inv tasks results log [] slots rest := h
      simp only [step] at hstep
      split at hstep
      · rename_i task hi
        cases hstep
        exact h.finish hi _
      · cases hstep
    | _ => cases hstep

theorem runInv_start {stages : List ResolvedStage}
    (hstages : resolveTaskStages tasks = .ok stages) : RunInv tasks (start tasks) := by
  rw [start, hstages]
  exact inv_start hstages

/-! ## The run comes to its end -/

def SlotState.work : SlotState → Nat
  | .waiting => 2
  | .running => 1
  | .finished _ => 0

/-- How many steps a run can still take. -/
def Phase.work : Phase → Nat
  | .between rest => 1 + (rest.map fun stage => 3 + 3 * stage.taskRoles.length).sum
  | .scanning ids runnable rest =>
    3 + 3 * ids.length + 2 * runnable.length +
      (rest.map fun stage => 3 + 3 * stage.taskRoles.length).sum
  | .gathering slots rest =>
    2 + (slots.map fun slot => slot.state.work).sum +
      (rest.map fun stage => 3 + 3 * stage.taskRoles.length).sum
  | .returned => 0
  | .raised _ => 0

theorem sum_work_set {new : Slot} {work : Nat} (hi : slots[i]? = some ⟨task, st⟩)
    (hwork : new.state.work + work = st.work) :
    ((slots.set i new).map fun slot => slot.state.work).sum + work =
      (slots.map fun slot => slot.state.work).sum := by
  induction slots generalizing i with
  | nil => cases hi
  | cons slot slots ih =>
    cases i with
    | zero =>
      cases hi
      simp only [List.set_cons_zero, List.map_cons, List.sum_cons]
      omega
    | succ i =>
      have hrest := ih hi
      simp only [List.set_cons_succ, List.map_cons, List.sum_cons]
      omega

theorem work_scan (s : DagRun) (id : String) (ids : List String) (runnable : List TaskSpec)
    (rest : List ResolvedStage) :
    (scan tasks s id ids runnable rest).phase.work <
      (Phase.scanning (id :: ids) runnable rest).work := by
  unfold scan
  split
  · simp only [Phase.work]
    omega
  · split
    · simp only [Phase.work]
      omega
    · simp only [Phase.work, List.length_append, List.length_cons, List.length_nil]
      omega
    · simp only [Phase.work, List.length_cons]
      omega

theorem work_step {s t : DagRun} {a : Action} (hstep : (machine tasks).step s a = some t) :
    t.phase.work < s.phase.work := by
  have hstep : step tasks s a = some t := hstep
  obtain ⟨phase, results, log⟩ := s
  cases a with
  | advance =>
    simp only [step, advance] at hstep
    split at hstep
    · cases hstep
      exact Nat.one_pos
    · cases hstep
      simp only [Phase.work, List.map_cons, List.sum_cons, List.length_nil]
      omega
    · cases hstep
      simp only [Phase.work, List.map_map, List.length_nil]
      have hsum : ∀ runnable : List TaskSpec, (runnable.map ((fun slot : Slot => slot.state.work) ∘
          fun task => ⟨task, .waiting⟩)).sum = 2 * runnable.length := by
        intro runnable
        induction runnable with
        | nil => rfl
        | cons task runnable ih =>
          rw [List.map_cons, List.sum_cons, ih, List.length_cons]
          simp only [Function.comp_apply, SlotState.work]
          omega
      rw [hsum]
      omega
    · cases hstep
      exact work_scan _ _ _ _ _
    · obtain ⟨-, hnext⟩ := Option.ite_none_right_eq_some.mp hstep
      cases hnext
      simp only [Phase.work]
      omega
    · cases hstep
    · cases hstep
  | invoke i =>
    cases phase with
    | gathering slots rest =>
      simp only [step] at hstep
      split at hstep
      · rename_i task hi
        split at hstep
        · cases hstep
          simp only [Phase.work]
          omega
        · cases hstep
          have hsum : ((slots.set i ⟨task, .running⟩).map fun slot => slot.state.work).sum + 1 =
              (slots.map fun slot => slot.state.work).sum := sum_work_set hi rfl
          simp only [Phase.work]
          omega
      · cases hstep
    | _ => cases hstep
  | finish i outcome =>
    cases phase with
    | gathering slots rest =>
      simp only [step] at hstep
      split at hstep
      · rename_i task hi
        cases hstep
        have hsum : ((slots.set i ⟨task, .finished (outcomeResult task.id outcome)⟩).map
            fun slot => slot.state.work).sum + 1 = (slots.map fun slot => slot.state.work).sum :=
          sum_work_set hi rfl
        simp only [Phase.work]
        omega
      · cases hstep
    | _ => cases hstep

/-- A run takes no more steps than its start allows. -/
theorem length_le_work {s t : DagRun} {as : List Action}
    (hrun : (machine tasks).run s as = some t) : as.length + t.phase.work ≤ s.phase.work := by
  induction as generalizing s with
  | nil =>
    cases hrun
    exact Nat.le_of_eq (Nat.zero_add _)
  | cons a as ih =>
    obtain ⟨u, hu, hrest⟩ := (Machine.run_cons_eq_some _).mp hrun
    have hlt := work_step hu
    have hle := ih hrest
    rw [List.length_cons]
    omega

/-- A run that has not returned can go on. -/
theorem exists_step {s : DagRun} (h : RunInv tasks s) (hnot : s.phase ≠ .returned) :
    ∃ a t, (machine tasks).step s a = some t := by
  obtain ⟨phase, results, log⟩ := s
  cases phase with
  | between rest =>
    cases rest with
    | nil => exact ⟨.advance, _, rfl⟩
    | cons stage rest => exact ⟨.advance, _, rfl⟩
  | scanning ids runnable rest =>
    cases ids with
    | nil => exact ⟨.advance, _, rfl⟩
    | cons id ids => exact ⟨.advance, _, rfl⟩
  | gathering slots rest =>
    have h : Inv tasks results log [] slots rest := h
    by_cases hall : slots.all fun slot => slot.result?.isSome
    · exact ⟨.advance, _, if_pos hall⟩
    · obtain ⟨⟨task, state⟩, hslot, hstate⟩ :
          ∃ slot ∈ slots, ¬slot.result?.isSome = true := by
        simpa using hall
      obtain ⟨i, hi⟩ := List.mem_iff_getElem?.mp hslot
      cases state with
      | waiting =>
        obtain ⟨context, hcontext, -⟩ := taskContext_of_ready (h.slot _ hslot).ready
        have hcontext : taskContext task results = .ok context := hcontext
        exact ⟨.invoke i, by simp [machine, step, hi, hcontext]⟩
      | running =>
        exact ⟨.finish i .timeout, by simp [machine, step, hi]⟩
      | finished result => exact absurd rfl hstate
  | returned => exact absurd rfl hnot
  | raised message => exact absurd h id

end Steps

/-! ## What the run returns -/

theorem isFailure_eq_false_iff {result : AgentResult} :
    result.isFailure = false ↔ result.status ≠ .failed ∧ result.status ≠ .unparsed := by
  rw [AgentResult.isFailure, Bool.or_eq_false_iff, decide_eq_false_iff_not,
    decide_eq_false_iff_not]

theorem unblocked_iff : Unblocked results task ↔ task.onDepFailure = .proceed ∨
    ∀ dep ∈ task.dependsOn, ∀ result, results.find dep = some (dep, result) →
      result.status ≠ .failed ∧ result.status ≠ .unparsed := by
  unfold Unblocked failedDependencies
  rw [or_comm, List.filter_eq_nil_iff]
  refine or_congr_right (forall₂_congr fun dep _ => ?_)
  cases hfind : results.find dep with
  | none => simp
  | some entry =>
    obtain ⟨entryId, result⟩ := entry
    obtain rfl : entryId = dep := Table.key_of_find hfind
    simp [← isFailure_eq_false_iff]

/-- What was known in the past is what the results say in the end. -/
theorem extends_of_knows {known : Results} {past : List Event}
    (hsettled : ∀ id result, Event.settled id result ∈ log → (id, result) ∈ results.entries)
    (hpast : ∀ e ∈ past, e ∈ log) (h : Knows known past) : Extends known results := by
  intro id entry hfind
  obtain ⟨hmem, rfl⟩ := Table.find_eq_some_iff.mp hfind
  exact Table.find_of_mem (hsettled entry.1 entry.2 (hpast _ (h entry hmem)))

theorem accounted_of_returned (hnodup : (tasks.map TaskSpec.id).Nodup)
    (h : Inv tasks results log [] [] []) : Accounted tasks results log := by
  have hperm : (results.entries.map Prod.fst).Perm (tasks.map TaskSpec.id) := by
    have hperm := h.perm
    rwa [List.map_nil, List.flatMap_nil, List.append_nil, List.append_nil, List.append_nil] at hperm
  have hsettled : ∀ id result, Event.settled id result ∈ log → (id, result) ∈ results.entries :=
    fun id result hmem => (h.settled id result hmem).resolve_right nofun
  have hresult : ∀ task ∈ tasks, ∃ result, (task.id, result) ∈ results.entries := by
    intro task ht
    obtain ⟨⟨id, result⟩, hmem, hid⟩ :=
      List.mem_map.mp (hperm.mem_iff.mpr (List.mem_map_of_mem ht))
    exact ⟨result, by rwa [← hid]⟩
  -- an invocation, seen from the results that are returned
  have hinvoked : ∀ task ∈ tasks, ∀ pre context post,
      log = pre ++ .invoked task.id context :: post → Unblocked results task ∧
      (∀ dep ∈ task.dependsOn, ∃ result, results.find dep = some (dep, result) ∧
        Event.settled dep result ∈ pre) ∧
      ∀ dep, context.find dep = if dep ∈ task.dependsOn then results.find dep else none := by
    intro task ht pre context post hsplit
    obtain ⟨-, -, task', ht', hid, known, hknows, hready, hunblocked, hcontext⟩ :=
      h.justified pre _ post hsplit
    obtain rfl := List.inj_on_of_nodup_map hnodup ht' ht hid
    have hpast : ∀ e ∈ pre, e ∈ log := fun e he => hsplit ▸ List.mem_append_left _ he
    have hext := extends_of_knows hsettled hpast hknows
    refine ⟨hunblocked.mono hext hready, fun dep hdep => ?_, fun dep => ?_⟩
    · obtain ⟨⟨entryId, result⟩, hfind⟩ := Option.isSome_iff_exists.mp (hready dep hdep)
      obtain ⟨hmem, rfl⟩ := Table.find_eq_some_iff.mp hfind
      exact ⟨result, hext _ _ hfind, hknows _ hmem⟩
    · rw [hcontext dep]
      split
      · rename_i hdep
        exact (hready.find_eq hext hdep).symm
      · rfl
  have hblocked : ∀ task ∈ tasks, (∀ context, Event.invoked task.id context ∉ log) →
      ¬Unblocked results task ∧ results.find task.id =
        some (task.id, blockedBy task (failedDependencies task results)) := by
    intro task ht hnever
    obtain ⟨result, hmem⟩ := hresult task ht
    obtain ⟨pre, post, hsplit⟩ := List.append_of_mem (h.knows _ hmem)
    have hpast : ∀ e ∈ pre, e ∈ log := fun e he => hsplit ▸ List.mem_append_left _ he
    rcases h.justified pre _ post hsplit with
      ⟨context, hcontext⟩ | ⟨task', ht', hid, known, hknows, hready, hnot, hblockedBy⟩
    · exact absurd (hpast _ hcontext) (hnever context)
    · obtain rfl := List.inj_on_of_nodup_map hnodup ht' ht hid
      have hfailed := hready.failedDependencies_eq (extends_of_knows hsettled hpast hknows)
      rw [Unblocked, hfailed, ← hblockedBy]
      exact ⟨hnot, Table.find_of_mem hmem⟩
  refine ⟨hperm, fun pre id context post hsplit => (h.justified pre _ post hsplit).1,
    fun task ht => ?_, fun task ht pre context post hsplit => (hinvoked task ht _ _ _ hsplit).2.1,
    fun task ht context hmem => ?_, fun task ht hnever => ?_⟩
  · rw [← unblocked_iff]
    constructor
    · rintro ⟨context, hmem⟩
      obtain ⟨pre, post, hsplit⟩ := List.append_of_mem hmem
      exact (hinvoked task ht pre context post hsplit).1
    · intro hunblocked
      by_contra hnever
      exact (hblocked task ht (not_exists.mp hnever)).1 hunblocked
  · obtain ⟨pre, post, hsplit⟩ := List.append_of_mem hmem
    exact (hinvoked task ht pre context post hsplit).2.2
  · obtain ⟨hnot, hfind⟩ := hblocked task ht hnever
    exact ⟨fun hnil => hnot (Or.inl hnil), hfind⟩

/-- `fetch` fails, `clean` is blocked by it, `report` is not, for its policy. -/
def pipeline : List TaskSpec :=
  [{ id := "report", input := "", dependsOn := ["clean", "scan"], onDepFailure := .proceed },
    { id := "clean", input := "", dependsOn := ["fetch"] },
    { id := "fetch", input := "" }, { id := "scan", input := "" }]

def pipelineRun : List Action :=
  [.advance, .advance, .advance, .advance, .invoke 0, .invoke 1, .finish 1 .timeout,
    .finish 0 (.exception "boom"), .advance, .advance, .advance, .advance, .advance, .advance,
    .advance, .advance, .invoke 0, .finish 0 (.result { status := .passed, summary := "ok" }),
    .advance, .advance]

theorem pipelineRun_isSome :
    ((machine pipeline).run (start pipeline) pipelineRun).isSome := by decide +kernel

def pipelineEnd : DagRun := (machine pipeline).after (start pipeline) pipelineRun pipelineRun_isSome

end NeuralHub.SubAgents
