/-
NeuralHub.WebSocket.OneRun — one run per session, and when it can be
reached.

`OneRun` is what the handlers rely on: the task of a run that is not over is
the one in `_tasks`, and its loop or runner is the one that is stored for
the session. So a session has one run at most.

Between the check for a running task and the start of the next one a
handler awaits several times, a plan that is resumed does not check at all,
and the callbacks of a task and the deletion of a session go by the
session. `Orderly` is the exact condition under which all of this does no
harm (`one_run_iff_orderly`); the eviction of loops and the disconnection
of clients never do any. While it is met, what is sent to a session reaches
its run (`messages_reach_the_run`).
-/
import NeuralHub.WebSocket.Endpoint

namespace NeuralHub.WebSocket

open NeuralHub.Lib

variable {s t : State} {session k : String} {agent : Agent} {run : RunTask} {task ws : Nat}

namespace State

/-- The agent is the one that is stored for the session. -/
def holds (s : State) (session : String) : Agent → Prop
  | .loop loop => s.cache.loops.get session = some loop
  | .runner runner => s.planRunners.get session = some runner

/-- The agents of the runs of a session that are not over. -/
def runningAgents (s : State) (session : String) : List Agent :=
  (s.runs.filter fun run => run.session = session ∧ run.status = .running).map (·.agent)

end State

def OneRun (s : State) : Prop :=
  ∀ (task : Nat) (run : RunTask), s.runs[task]? = some run → run.status = .running →
    s.tasks.get run.session = some task ∧ s.holds run.session run.agent

/-! ## The condition -/

def Agent.isLoop : Agent → Bool
  | .loop _ => true
  | .runner _ => false

/-- A loop is stored behind no run of a loop, and a task starts behind no run at all, with the
loop that is stored by then. -/
def orderlyAwait (s : State) (session : String) : Point → Outcome → Bool
  | .creatingLoop _, .created _ => (s.runningAgents session).all fun agent => !agent.isLoop
  | .ready loop, .done =>
    decide (s.runningAgents session = []) && decide (s.cache.loops.get session = some loop)
  | .creatingRunner, .created _ => decide (s.runningAgents session = [])
  | .creatingResume, .created _ => decide (s.runningAgents session = [])
  | _, _ => true

def orderly (s : State) : Action → Bool
  -- an abort takes the runner out of the table at once
  | .receive ws .abort =>
    s.sockets[ws]?.all fun connection =>
      (s.runningAgents connection.session).all Agent.isLoop
  | .awaited ws outcome =>
    s.sockets[ws]?.all fun connection =>
      orderlyAwait s connection.session connection.point outcome
  | .callback task =>
    s.runs[task]?.all fun run => decide (s.runningAgents run.session = [])
  -- the loop is taken at once, and the rest when its messages are saved
  | .clearSession session =>
    if (s.cache.loops.get session).isSome then
      (s.runningAgents session).all fun agent => !agent.isLoop
    else decide (s.runningAgents session = [])
  | .cleared session _ saved => !saved || decide (s.runningAgents session = [])
  | _ => true

def Orderly (s : State) (a : Action) : Prop := orderly s a = true

instance (s : State) (a : Action) : Decidable (Orderly s a) :=
  inferInstanceAs (Decidable (_ = true))

/-! ## Runs that are not over -/

theorem mem_runningAgents : agent ∈ s.runningAgents session ↔
    ∃ (task : Nat) (run : RunTask), s.runs[task]? = some run ∧ run.status = .running ∧
      run.session = session ∧ run.agent = agent := by
  unfold State.runningAgents
  simp only [List.mem_map, List.mem_filter, decide_eq_true_eq]
  constructor
  · rintro ⟨run, ⟨hmem, hsession, hstatus⟩, hagent⟩
    obtain ⟨task, htask⟩ := List.mem_iff_getElem?.mp hmem
    exact ⟨task, run, htask, hstatus, hsession, hagent⟩
  · rintro ⟨task, run, htask, hstatus, hsession, hagent⟩
    exact ⟨run, ⟨List.mem_iff_getElem?.mpr ⟨task, htask⟩, hsession, hstatus⟩, hagent⟩

theorem not_running_of_nil (h : s.runningAgents session = []) (hrun : s.runs[task]? = some run)
    (hstatus : run.status = .running) : run.session ≠ session := by
  intro hsession
  have hmem := mem_runningAgents.mpr ⟨task, run, hrun, hstatus, hsession, rfl⟩
  rw [h] at hmem
  exact List.not_mem_nil hmem

theorem exists_running_of_ne_nil (h : s.runningAgents session ≠ []) :
    ∃ (task : Nat) (run : RunTask), s.runs[task]? = some run ∧ run.status = .running ∧
      run.session = session := by
  obtain ⟨agent, hagent⟩ := List.exists_mem_of_ne_nil _ h
  obtain ⟨task, run, hrun, hstatus, hsession, -⟩ := mem_runningAgents.mp hagent
  exact ⟨task, run, hrun, hstatus, hsession⟩

/-- A session has one run at most. -/
theorem OneRun.unique (hs : OneRun s) {other : Nat} {run' : RunTask}
    (hrun : s.runs[task]? = some run) (hstatus : run.status = .running)
    (hrun' : s.runs[other]? = some run') (hstatus' : run'.status = .running)
    (hsession : run.session = run'.session) : task = other := by
  have h := (hs task run hrun hstatus).1
  have h' := (hs other run' hrun' hstatus').1
  rw [hsession, h'] at h
  exact (Option.some.inj h).symm

theorem OneRun.isBusy (hs : OneRun s) (hrun : s.runs[task]? = some run)
    (hstatus : run.status = .running) : s.isBusy run.session = true := by
  unfold State.isBusy
  rw [(hs task run hrun hstatus).1]
  simp [hrun, hstatus]

/-- What a state with the same runs has to keep. -/
theorem OneRun.of_kept (hs : OneRun s)
    (h : ∀ (task : Nat) (run : RunTask), t.runs[task]? = some run → run.status = .running →
      s.runs[task]? = some run ∧ t.tasks.get run.session = s.tasks.get run.session ∧
        (s.holds run.session run.agent → t.holds run.session run.agent)) : OneRun t := by
  intro task run hrun hstatus
  obtain ⟨hrun', htasks, hholds⟩ := h task run hrun hstatus
  obtain ⟨htask, hagent⟩ := hs task run hrun' hstatus
  exact ⟨htasks.trans htask, hholds hagent⟩

/-! ## Steps that change no run -/

/-- The runs, and what is stored for the sessions, are the same. -/
structure Frame (s t : State) : Prop where
  runs : t.runs = s.runs
  tasks : t.tasks = s.tasks
  planRunners : t.planRunners = s.planRunners
  loops : ∀ k, t.cache.loops.get k = s.cache.loops.get k

namespace Frame

theorem refl (s : State) : Frame s s := ⟨rfl, rfl, rfl, fun _ => rfl⟩

theorem goTo (h : Frame s t) (ws : Nat) (point : Point) : Frame s (t.goTo ws point) :=
  ⟨h.runs, h.tasks, h.planRunners, h.loops⟩

theorem call (h : Frame s t) (calls : List Call) : Frame s (t.call calls) :=
  ⟨h.runs, h.tasks, h.planRunners, h.loops⟩

theorem touch (h : Frame s t) (session : String) : Frame s (t.touch session) :=
  ⟨h.runs, h.tasks, h.planRunners, fun k => (LoopCache.get_snd_loops k).trans (h.loops k)⟩

theorem discard (h : Frame s t) (session : String) (ws : Nat) : Frame s (t.discard session ws) := by
  unfold State.discard
  split
  · exact h
  · dsimp only
    split <;> exact ⟨h.runs, h.tasks, h.planRunners, h.loops⟩

theorem leave (h : Frame s t) (ws : Nat) (session : String) : Frame s (t.leave ws session) := by
  unfold State.leave
  dsimp only
  split
  · exact (h.discard session ws).goTo ws _
  · exact (h.discard session ws).goTo ws _

theorem holds_iff (h : Frame s t) (session : String) (agent : Agent) :
    t.holds session agent ↔ s.holds session agent := by
  cases agent with
  | loop loop => unfold State.holds; dsimp only; rw [h.loops]
  | runner runner => unfold State.holds; dsimp only; rw [h.planRunners]

theorem oneRun (h : Frame s t) (hs : OneRun s) : OneRun t := by
  refine hs.of_kept fun task run hrun _ => ?_
  rw [h.runs] at hrun
  exact ⟨hrun, congrArg (Dict.get · run.session) h.tasks, (h.holds_iff _ _).mpr⟩

theorem connect (s : State) (session : String) : Frame s (s.connect session) :=
  ⟨rfl, rfl, rfl, fun _ => rfl⟩

theorem receiveRun (s : State) (ws : Nat) (session text : String)
    (settings : Option LoopSettings) : Frame s (s.receiveRun ws session text settings) := by
  unfold State.receiveRun
  split
  · split
    · split
      · exact ((refl s).call _).goTo ws _
      · exact (refl s).goTo ws _
    · exact (refl s).goTo ws _
  · split
    · exact ((refl s).touch session).goTo ws _
    · exact ((refl s).touch session).goTo ws _

theorem decideTool (s : State) (ws : Nat) (session toolCallId : String) (approved : Bool)
    (pending : Agent → Bool) :
    Frame s (s.decideTool ws session toolCallId approved pending) := by
  unfold State.decideTool
  split
  · exact (refl s).goTo ws _
  · dsimp only
    split
    · exact ((refl s).touch session).call _
    · split
      · exact ((refl s).touch session).call _
      · exact (((refl s).touch session).call _).goTo ws _

theorem receive (s : State) (ws : Nat) (session : String) {message : Message}
    (h : message ≠ .abort) : Frame s (s.receive ws session message) := by
  cases message with
  | run text settings => exact receiveRun s ws session text settings
  | planApprove =>
    unfold State.receive
    dsimp only
    split
    · exact (refl s).goTo ws _
    · exact (refl s).call _
  | planReject reason =>
    unfold State.receive
    dsimp only
    split
    · exact (refl s).goTo ws _
    · exact (refl s).call _
  | planResume settings =>
    unfold State.receive
    dsimp only
    split
    · exact (refl s).goTo ws _
    · split
      · exact (refl s).goTo ws _
      · exact (refl s).goTo ws _
  | planDiscard => exact (refl s).goTo ws _
  | toolDecision toolCallId approved pending =>
    exact decideTool s ws session toolCallId approved pending
  | planCancel => exact ((refl s).call _).goTo ws _
  | abort => exact absurd rfl h
  | unsupported => exact (refl s).goTo ws _

theorem resolved (s : State) (ws : Nat) (session : String) (loop : Option LoopId)
    (settings : LoopSettings) (text : String) (incomplete : Bool) :
    Frame s (s.resolved ws session loop settings text incomplete) := by
  unfold State.resolved
  dsimp only
  split
  · split
    · exact (refl s).goTo ws _
    · exact (refl s).goTo ws _
  · split
    · exact (refl s).goTo ws _
    · exact (refl s).goTo ws _

theorem prepared (s : State) (ws : Nat) (session : String) (loop : Option LoopId)
    (settings : LoopSettings) : Frame s (s.prepared ws session loop settings) := by
  cases loop with
  | none => exact (refl s).goTo ws _
  | some loop =>
    unfold State.prepared
    dsimp only
    split
    · exact (refl s).goTo ws _
    · exact (refl s).goTo ws _

end Frame

/-! ## Steps that release what is stored for a session -/

/-- The other sessions, and all runs, are as they were. -/
structure Released (session : String) (s t : State) : Prop where
  runs : t.runs = s.runs
  tasks : ∀ k, k ≠ session → t.tasks.get k = s.tasks.get k
  planRunners : ∀ k, k ≠ session → t.planRunners.get k = s.planRunners.get k
  loops : ∀ k, k ≠ session → t.cache.loops.get k = s.cache.loops.get k

namespace Released

theorem of_frame (h : Frame s t) : Released session s t :=
  ⟨h.runs, fun k _ => congrArg (Dict.get · k) h.tasks,
    fun k _ => congrArg (Dict.get · k) h.planRunners, fun k _ => h.loops k⟩

theorem drop (h : Released session s t) (loop : LoopId) :
    Released session s (t.drop session loop) :=
  ⟨h.runs, h.tasks, h.planRunners, fun k hk =>
    (LoopCache.pop_loops k).trans ((if_neg hk).trans (h.loops k hk))⟩

theorem evictIfIdle (h : Released session s t) : Released session s (t.evictIfIdle session) := by
  unfold State.evictIfIdle
  split
  · exact h
  · split
    · exact h.drop _
    · exact ⟨h.runs, h.tasks, h.planRunners, fun k hk =>
        (LoopCache.pop_loops k).trans ((if_neg hk).trans (h.loops k hk))⟩

theorem left (s : State) (ws : Nat) (session : String) (loop : LoopId) :
    Released session s (s.left ws session loop) := by
  have hgo : Released session s (s.goTo ws .closed) := .of_frame ((Frame.refl s).goTo ws _)
  unfold State.left
  dsimp only
  split
  · exact hgo.drop loop
  · exact hgo

theorem callback (s : State) (run : RunTask) : Released run.session s (s.callback run) := by
  have htasks : Released run.session s { s with tasks := s.tasks.remove run.session } :=
    ⟨rfl, fun _ hk => Dict.get_remove_of_ne _ hk, fun _ _ => rfl, fun _ _ => rfl⟩
  have hplans : Released run.session s
      { s with
        tasks := s.tasks.remove run.session
        planRunners := s.planRunners.remove run.session } :=
    ⟨rfl, htasks.tasks, fun _ hk => Dict.get_remove_of_ne _ hk, fun _ _ => rfl⟩
  unfold State.callback
  dsimp only
  cases run.agent with
  | loop loop =>
    dsimp only
    split
    · exact htasks.evictIfIdle
    · exact htasks
  | runner runner =>
    dsimp only
    split
    · exact hplans.evictIfIdle
    · exact hplans

theorem clear (s : State) (session : String) : Released session s (s.clear session) :=
  ⟨rfl, fun _ hk => Dict.get_remove_of_ne _ hk, fun _ hk => Dict.get_remove_of_ne _ hk,
    fun _ _ => rfl⟩

theorem holds (h : Released session s t) (hk : k ≠ session) (hholds : s.holds k agent) :
    t.holds k agent := by
  cases agent with
  | loop loop => exact (h.loops k hk).trans hholds
  | runner runner => exact (h.planRunners k hk).trans hholds

/-- What is released for a session without a run harms no run. -/
theorem oneRun (h : Released session s t) (hs : OneRun s) (hidle : s.runningAgents session = []) :
    OneRun t := by
  refine hs.of_kept fun task run hrun hstatus => ?_
  rw [h.runs] at hrun
  have hne := not_running_of_nil hidle hrun hstatus
  exact ⟨hrun, h.tasks _ hne, h.holds hne⟩

end Released

/-- A session that is not busy has no run. -/
theorem OneRun.idle (hs : OneRun s) (h : s.isBusy session = false) :
    s.runningAgents session = [] := by
  by_contra hne
  obtain ⟨task, run, hrun, hstatus, rfl⟩ := exists_running_of_ne_nil hne
  rw [hs.isBusy hrun hstatus] at h
  cases h

theorem oneRun_left (hs : OneRun s) (ws : Nat) (session : String) (loop : LoopId) :
    OneRun (s.left ws session loop) := by
  by_cases hbusy : s.isBusy session = true
  · have hframe : s.left ws session loop = s.goTo ws .closed := by
      unfold State.left
      exact if_neg fun h => by simp [State.isBusy, State.goTo] at h hbusy; simp [hbusy] at h
    rw [hframe]
    exact ((Frame.refl s).goTo ws _).oneRun hs
  · exact (Released.left s ws session loop).oneRun hs (hs.idle (by simpa using hbusy))

/-! ## Steps that store -/

/-- Storing a loop takes none from a busy session. -/
theorem loops_storeLoop (s : State) (ws : Nat) (session : String) (loop : LoopId)
    (settings : LoopSettings) (k : String) :
    (k = session → (s.storeLoop ws session loop settings).cache.loops.get k = some loop) ∧
      (k ≠ session → s.isBusy k = true →
        (s.storeLoop ws session loop settings).cache.loops.get k = s.cache.loops.get k) := by
  have hcache : (s.storeLoop ws session loop settings).cache =
      (s.cache.store s.isBusy session loop settings).1 := by
    unfold State.storeLoop
    dsimp only
    split <;> rfl
  obtain ⟨hkeys, -, hloops, -⟩ := LoopCache.store_evicts s.isBusy s.cache session loop settings
  rw [hcache, hloops]
  refine ⟨fun hk => if_pos hk, fun hk hbusy => ?_⟩
  rw [if_neg hk, if_neg]
  intro hmem
  rw [hkeys] at hmem
  have hidle := of_decide_eq_true (List.mem_filter.mp (List.mem_of_mem_take hmem)).2
  rw [hidle.2] at hbusy
  cases hbusy

theorem frame_storeLoop (s : State) (ws : Nat) (session : String) (loop : LoopId)
    (settings : LoopSettings) :
    (s.storeLoop ws session loop settings).runs = s.runs ∧
      (s.storeLoop ws session loop settings).tasks = s.tasks ∧
      (s.storeLoop ws session loop settings).planRunners = s.planRunners := by
  unfold State.storeLoop
  dsimp only
  split <;> exact ⟨rfl, rfl, rfl⟩

theorem oneRun_storeLoop_iff (hs : OneRun s) (ws : Nat) {loop : LoopId}
    (settings : LoopSettings) (hnew : s.isNew (.loop loop) = true) :
    OneRun (s.storeLoop ws session loop settings) ↔
      (s.runningAgents session).all (fun agent => !agent.isLoop) = true := by
  obtain ⟨hruns, htasks, hplans⟩ := frame_storeLoop s ws session loop settings
  have hloops := loops_storeLoop s ws session loop settings
  rw [List.all_eq_true]
  constructor
  · intro hone agent hagent
    obtain ⟨task, run, hrun, hstatus, hsession, rfl⟩ := mem_runningAgents.mp hagent
    have hholds := (hone task run (hruns ▸ hrun) hstatus).2
    cases hrunning : run.agent with
    | runner runner => rfl
    | loop other =>
      rw [hrunning] at hholds
      have hother : other = loop :=
        Option.some.inj (hholds.symm.trans ((hloops run.session).1 hsession))
      unfold State.isNew at hnew
      have hne := List.all_eq_true.mp hnew run (List.mem_iff_getElem?.mpr ⟨task, hrun⟩)
      simp [hrunning, hother] at hne
  · intro hall
    refine hs.of_kept fun task run hrun hstatus => ?_
    rw [hruns] at hrun
    refine ⟨hrun, by rw [htasks], fun hholds => ?_⟩
    cases hrunning : run.agent with
    | runner runner =>
      rw [hrunning] at hholds
      unfold State.holds at hholds ⊢
      rw [hplans]
      exact hholds
    | loop other =>
      rw [hrunning] at hholds
      have hne : run.session ≠ session := by
        intro hsession
        have hmem := hall (.loop other)
          (mem_runningAgents.mpr ⟨task, run, hrun, hstatus, hsession, hrunning⟩)
        cases hmem
      exact ((hloops run.session).2 hne (hs.isBusy hrun hstatus)).trans hholds

/-! ## Steps that start a run -/

theorem getElem?_runs_start (s : State) (session : String) (agent : Agent) (evicts : Bool) :
    (s.start session agent evicts).runs[s.runs.length]? = some { session, agent, evicts } := by
  unfold State.start
  simp

theorem tasks_start (s : State) (session : String) (agent : Agent) (evicts : Bool) (k : String) :
    (s.start session agent evicts).tasks.get k =
      if k = session then some s.runs.length else s.tasks.get k := Dict.get_set _ _ _ _

/-- A run may start if there is none, with the agent that is stored. -/
theorem oneRun_start_iff {u : State} (hs : OneRun s) (hruns : u.runs = s.runs)
    (htasks : u.tasks = s.tasks)
    (hkept : ∀ k agent, k ≠ session → s.holds k agent → u.holds k agent) (evicts : Bool) :
    OneRun (u.start session agent evicts) ↔
      s.runningAgents session = [] ∧ u.holds session agent := by
  have hself := getElem?_runs_start u session agent evicts
  constructor
  · intro hone
    refine ⟨?_, (hone _ _ hself rfl).2⟩
    by_contra hne
    obtain ⟨task, run, hrun, hstatus, rfl⟩ := exists_running_of_ne_nil hne
    have hlt : task < u.runs.length := hruns ▸ (List.getElem?_eq_some_iff.mp hrun).1
    have hold : (u.start run.session agent evicts).runs[task]? = some run := by
      unfold State.start
      rw [List.getElem?_append_left hlt, hruns]
      exact hrun
    have heq := hone.unique hold hstatus hself rfl rfl
    omega
  · rintro ⟨hnil, hholds⟩ task run hrun hstatus
    rw [tasks_start]
    by_cases hlt : task < u.runs.length
    · unfold State.start at hrun
      rw [List.getElem?_append_left hlt, hruns] at hrun
      have hne := not_running_of_nil hnil hrun hstatus
      rw [if_neg hne, htasks]
      obtain ⟨htask, hagent⟩ := hs task run hrun hstatus
      exact ⟨htask, hkept _ _ hne hagent⟩
    · have hlen := (List.getElem?_eq_some_iff.mp hrun).1
      have hlast : task = u.runs.length := by
        unfold State.start at hlen
        rw [List.length_append, List.length_singleton] at hlen
        omega
      subst hlast
      rw [hself] at hrun
      cases hrun
      exact ⟨if_pos rfl, hholds⟩

theorem oneRun_startPlan_iff (hs : OneRun s) (runner : RunnerId) (evicts : Bool) :
    OneRun (s.startPlan session runner evicts) ↔ s.runningAgents session = [] := by
  refine (oneRun_start_iff (u := { s with planRunners := s.planRunners.set session runner }) hs
    rfl rfl (fun k agent hk hholds => ?_) evicts).trans
    (and_iff_left (Dict.get_set_self s.planRunners session runner))
  cases agent with
  | loop loop => exact hholds
  | runner other => exact (Dict.get_set_of_ne _ _ hk).trans hholds

/-! ## The other steps -/

/-- An abort has to leave a plan that runs its runner. -/
theorem oneRun_receiveAbort_iff (hs : OneRun s) (ws : Nat) (session : String) :
    OneRun (s.receiveAbort ws session) ↔
      (s.runningAgents session).all Agent.isLoop = true := by
  have hplans : (s.receiveAbort ws session).planRunners = s.planRunners.remove session := rfl
  rw [List.all_eq_true]
  constructor
  · intro hone agent hagent
    obtain ⟨task, run, hrun, hstatus, rfl, rfl⟩ := mem_runningAgents.mp hagent
    have hholds := (hone task run hrun hstatus).2
    cases hrunning : run.agent with
    | loop loop => rfl
    | runner runner =>
      rw [hrunning] at hholds
      unfold State.holds at hholds
      rw [hplans, Dict.get_remove_self] at hholds
      cases hholds
  · intro hall
    refine hs.of_kept fun task run hrun hstatus => ⟨hrun, rfl, fun hholds => ?_⟩
    cases hrunning : run.agent with
    | loop loop =>
      rw [hrunning] at hholds
      exact (LoopCache.get_snd_loops _).trans hholds
    | runner runner =>
      rw [hrunning] at hholds
      have hne : run.session ≠ session := by
        intro hsession
        have hloop := hall (.runner runner)
          (mem_runningAgents.mpr ⟨task, run, hrun, hstatus, hsession, hrunning⟩)
        cases hloop
      exact (Dict.get_remove_of_ne _ hne).trans hholds

theorem getElem?_setStatus {status : RunStatus} {other : Nat} {run' : RunTask}
    (h : (s.setStatus task status).runs[other]? = some run') :
    ∃ run, s.runs[other]? = some run ∧
      run' = if other = task then { run with status } else run := by
  unfold State.setStatus at h
  rw [List.getElem?_modify] at h
  obtain ⟨run, hrun, rfl⟩ := Option.map_eq_some_iff.mp h
  refine ⟨run, hrun, ?_⟩
  by_cases heq : task = other
  · rw [if_pos heq, if_pos heq.symm]
  · rw [if_neg heq, if_neg fun h => heq h.symm]

/-- A task that ends takes nothing along. -/
theorem oneRun_setStatus (hs : OneRun s) (task : Nat) (status : RunStatus)
    (hstatus : status ≠ .running) : OneRun (s.setStatus task status) := by
  refine hs.of_kept fun other run' hrun hrunning => ?_
  obtain ⟨run, hold, rfl⟩ := getElem?_setStatus hrun
  split at hrunning
  · exact absurd hrunning hstatus
  · next hne =>
    rw [if_neg hne]
    exact ⟨hold, rfl, fun hholds => hholds⟩

theorem runningAgents_setStatus (hrun : s.runs[task]? = some run) (hdone : run.status ≠ .running)
    (status : RunStatus) (hstatus : status ≠ .running) :
    (s.setStatus task status).runningAgents session = [] ↔ s.runningAgents session = [] := by
  rw [← not_iff_not]
  constructor
  · intro hne
    obtain ⟨other, run', hrun', hrunning, rfl⟩ := exists_running_of_ne_nil hne
    obtain ⟨old, hold, rfl⟩ := getElem?_setStatus hrun'
    split at hrunning
    · exact absurd hrunning hstatus
    · next hother =>
      rw [if_neg hother]
      exact List.ne_nil_of_mem (mem_runningAgents.mpr ⟨other, old, hold, hrunning, rfl, rfl⟩)
  · intro hne
    obtain ⟨other, old, hold, hrunning, rfl⟩ := exists_running_of_ne_nil hne
    have hother : task ≠ other := by
      rintro rfl
      rw [hrun] at hold
      cases hold
      exact hdone hrunning
    refine List.ne_nil_of_mem (mem_runningAgents.mpr ⟨other, old, ?_, hrunning, rfl, rfl⟩)
    unfold State.setStatus
    rw [List.getElem?_modify, hold]
    exact congrArg some (if_neg hother)

theorem tasks_callback (s : State) (run : RunTask) :
    (s.callback run).tasks = s.tasks.remove run.session := by
  unfold State.callback
  dsimp only
  cases run.agent <;> dsimp only <;> split <;> try rfl
  all_goals
    unfold State.evictIfIdle
    split
    · rfl
    · split <;> rfl

/-- The callbacks of a task harm a run of its session. -/
theorem oneRun_callback_iff (hs : OneRun s) (hrun : s.runs[task]? = some run)
    (hdone : run.status ≠ .running) :
    OneRun ((s.setStatus task .settled).callback run) ↔ s.runningAgents run.session = [] := by
  have hset := oneRun_setStatus hs task .settled RunStatus.noConfusion
  have hreleased := Released.callback (s.setStatus task .settled) run
  rw [← runningAgents_setStatus hrun hdone .settled RunStatus.noConfusion]
  constructor
  · intro hone
    by_contra hne
    obtain ⟨other, run', hrun', hrunning, hsession⟩ := exists_running_of_ne_nil hne
    have htask := (hone other run' (hreleased.runs ▸ hrun') hrunning).1
    rw [hsession, tasks_callback, Dict.get_remove_self] at htask
    cases htask
  · exact hreleased.oneRun hset

/-- What is cleared is taken from a run of the session. -/
theorem oneRun_clear_iff (hs : OneRun s) (session : String) :
    OneRun (s.clear session) ↔ s.runningAgents session = [] := by
  constructor
  · intro hone
    by_contra hne
    obtain ⟨task, run, hrun, hrunning, rfl⟩ := exists_running_of_ne_nil hne
    have htask : (s.tasks.remove run.session).get run.session = some task :=
      (hone task run hrun hrunning).1
    rw [Dict.get_remove_self] at htask
    cases htask
  · exact (Released.clear s session).oneRun hs

/-- A run of a loop needs the loop that `clear_session` takes. -/
theorem oneRun_clearSession_iff (hs : OneRun s) (session : String) :
    OneRun (s.clearSession session) ↔ orderly s (.clearSession session) = true := by
  unfold State.clearSession
  simp only [orderly]
  cases hloop : s.cache.loops.get session with
  | none =>
    rw [if_neg (by simp), decide_eq_true_iff]
    exact oneRun_clear_iff hs session
  | some loop =>
    rw [if_pos (by simp), List.all_eq_true]
    constructor
    · intro hone agent hagent
      obtain ⟨task, run, hrun, hstatus, rfl, rfl⟩ := mem_runningAgents.mp hagent
      have hholds := (hone task run hrun hstatus).2
      cases hrunning : run.agent with
      | runner runner => rfl
      | loop other =>
        rw [hrunning] at hholds
        have hgone : (s.cache.loops.remove run.session).get run.session = some other := hholds
        rw [Dict.get_remove_self] at hgone
        cases hgone
    · intro hall
      refine hs.of_kept fun task run hrun hstatus => ⟨hrun, rfl, fun hholds => ?_⟩
      cases hrunning : run.agent with
      | runner runner =>
        rw [hrunning] at hholds
        exact hholds
      | loop other =>
        rw [hrunning] at hholds
        have hne : run.session ≠ session := by
          intro hsession
          have hrunner := hall (.loop other)
            (mem_runningAgents.mpr ⟨task, run, hrun, hstatus, hsession, hrunning⟩)
          cases hrunner
        exact (Dict.get_remove_of_ne _ hne).trans hholds

theorem oneRun_cleared_iff (hs : OneRun s) {loop : LoopId} {saved : Bool}
    (h : s.cleared session loop saved = some t) :
    OneRun t ↔ orderly s (.cleared session loop saved) = true := by
  unfold State.cleared at h
  obtain ⟨-, h⟩ := Option.ite_none_right_eq_some.mp h
  cases h
  cases saved with
  | false => exact iff_of_true (Frame.oneRun ⟨rfl, rfl, rfl, fun _ => rfl⟩ hs) rfl
  | true =>
    have hcalled : OneRun (State.call
        { s with clearing := s.clearing.erase (session, loop) } [.abortLoop loop]) :=
      Frame.oneRun (s := s) ⟨rfl, rfl, rfl, fun _ => rfl⟩ hs
    exact (oneRun_clear_iff hcalled session).trans decide_eq_true_iff.symm

/-! ## Whole runs -/

theorem oneRun_awaited_iff (hs : OneRun s) (ws : Nat) (session : String) (point : Point)
    (outcome : Outcome) (h : s.awaited ws session point outcome = some t) :
    OneRun t ↔ orderlyAwait s session point outcome = true := by
  have hgo : ∀ {u : State}, OneRun u → ∀ point, OneRun (u.goTo ws point) := fun {u} hu point =>
    ((Frame.refl u).goTo ws point).oneRun hu
  have hback : ∀ {u : State} {point : Point}, OneRun (u.goTo ws point) → OneRun u :=
    fun {u point} hu => Frame.oneRun (s := u.goTo ws point) ⟨rfl, rfl, rfl, fun _ => rfl⟩ hu
  have hleave : OneRun (s.leave ws session) := ((Frame.refl s).leave ws session).oneRun hs
  have hplan : ∀ runner evicts, OneRun ((s.startPlan session runner evicts).goTo ws .receiving) ↔
      s.runningAgents session = [] := fun runner evicts =>
    (Iff.intro hback fun hu => hgo hu _).trans (oneRun_startPlan_iff hs runner evicts)
  cases point with
  | resuming => cases outcome <;> cases h <;> exact iff_of_true (hgo hs _) rfl
  | receiving =>
    cases outcome <;> cases h
    · exact iff_of_true (hgo hs _) rfl
    · exact iff_of_true hleave rfl
  | replying =>
    cases outcome <;> cases h
    · exact iff_of_true (hgo hs _) rfl
    · exact iff_of_true (hgo hs _) rfl
    · exact iff_of_true hleave rfl
  | failing => cases outcome <;> cases h <;> exact iff_of_true hleave rfl
  | resolving loop settings text =>
    cases outcome <;> cases h
    · exact iff_of_true (hgo hs _) rfl
    · exact iff_of_true ((Frame.resolved s ws session loop _ text _).oneRun hs) rfl
  | preparing loop settings =>
    cases outcome <;> try cases h
    · exact iff_of_true (hgo hs _) rfl
    · next emptyReply =>
      cases emptyReply <;> cases h
      · exact iff_of_true ((Frame.prepared s ws session loop settings).oneRun hs) rfl
      · exact iff_of_true (hgo hs _) rfl
  | syncing loop settings =>
    cases outcome <;> cases h
    · exact iff_of_true (((Frame.refl s).call _).goTo ws _ |>.oneRun hs) rfl
    · exact iff_of_true (hgo hs _) rfl
  | creatingLoop settings =>
    cases outcome <;> try cases h
    · exact iff_of_true (hgo hs _) rfl
    · next id =>
      unfold State.awaited at h
      obtain ⟨hnew, h⟩ := Option.ite_none_right_eq_some.mp h
      cases h
      exact oneRun_storeLoop_iff hs ws settings hnew
  | evicting victim victims loop =>
    cases outcome <;> try cases h
    cases victims <;> cases h <;>
      exact iff_of_true (((Frame.refl s).call _).goTo ws _ |>.oneRun hs) rfl
  | ready loop =>
    cases outcome <;> cases h
    · have hstart : OneRun (s.start session (.loop loop) true) ↔ _ :=
        oneRun_start_iff hs rfl rfl (fun _ _ _ hholds => hholds) true
      refine (Iff.intro hback fun hu => hgo hu _).trans (hstart.trans ?_)
      unfold orderlyAwait
      simp [State.holds]
    · exact iff_of_true (hgo hs _) rfl
  | creatingRunner =>
    cases outcome <;> try cases h
    · exact iff_of_true (hgo hs _) rfl
    · next id =>
      unfold State.awaited at h
      obtain ⟨-, h⟩ := Option.ite_none_right_eq_some.mp h
      cases h
      exact (hplan _ _).trans decide_eq_true_iff.symm
  | resolvingResume settings => cases outcome <;> cases h <;> exact iff_of_true (hgo hs _) rfl
  | creatingResume =>
    cases outcome <;> try cases h
    · exact iff_of_true (hgo hs _) rfl
    · next id =>
      unfold State.awaited at h
      obtain ⟨-, h⟩ := Option.ite_none_right_eq_some.mp h
      cases h
      exact (hplan _ _).trans decide_eq_true_iff.symm
    · exact iff_of_true (hgo hs _) rfl
  | leaving loop =>
    cases outcome <;> cases h
    exact iff_of_true (oneRun_left hs ws session loop) rfl
  | closed => cases outcome <;> cases h

/-- One step: it leaves one run for each session if and only if it is orderly. -/
theorem oneRun_step_iff (hs : OneRun s) {a : Action} (h : machine.step s a = some t) :
    OneRun t ↔ Orderly s a := by
  unfold Orderly
  cases a with
  | connect session =>
    cases h
    exact iff_of_true ((Frame.connect s session).oneRun hs) rfl
  | receive ws message =>
    obtain ⟨connection, hconnection, h⟩ := Option.bind_eq_some_iff.mp h
    split at h
    · cases h
      cases message with
      | abort =>
        simp only [orderly, hconnection, Option.all_some]
        exact oneRun_receiveAbort_iff hs ws connection.session
      | _ => exact iff_of_true ((Frame.receive s ws _ Message.noConfusion).oneRun hs) rfl
    · cases h
  | awaited ws outcome =>
    obtain ⟨connection, hconnection, h⟩ := Option.bind_eq_some_iff.mp h
    simp only [orderly, hconnection, Option.all_some]
    exact oneRun_awaited_iff hs ws _ _ outcome h
  | sendFailed ws =>
    obtain ⟨connection, hconnection, h⟩ := Option.map_eq_some_iff.mp h
    cases h
    exact iff_of_true (((Frame.refl s).discard _ ws).oneRun hs) rfl
  | finish task =>
    obtain ⟨run, hrun, h⟩ := Option.bind_eq_some_iff.mp h
    obtain ⟨-, h⟩ := Option.ite_none_right_eq_some.mp h
    cases h
    exact iff_of_true (oneRun_setStatus hs task .done RunStatus.noConfusion) rfl
  | callback task =>
    obtain ⟨run, hrun, h⟩ := Option.bind_eq_some_iff.mp h
    obtain ⟨hdone, h⟩ := Option.ite_none_right_eq_some.mp h
    cases h
    simp only [orderly, hrun, Option.all_some, decide_eq_true_eq]
    exact oneRun_callback_iff hs hrun (by simp [hdone])
  | clearSession session =>
    cases h
    exact oneRun_clearSession_iff hs session
  | cleared session loop saved => exact oneRun_cleared_iff hs h

theorem oneRun_start : OneRun start := fun _ _ hrun => absurd hrun (by simp [start])

/-- **One run per session.** At every moment of a run of the endpoint each session has one run
at most, and that is the one that is stored, if and only if every step is orderly. -/
theorem one_run_iff_orderly {as : List Action} (hrun : machine.run start as = some t) :
    machine.Always OneRun start as ↔ machine.Meets Orderly start as :=
  machine.always_iff_meets (I := OneRun) (fun _ hs => hs)
    (fun _ _ _ hs hc h => (oneRun_step_iff hs h).mpr hc)
    (fun _ _ _ hs hc h hone => hc ((oneRun_step_iff hs h).mp hone)) oneRun_start hrun

/-- A client runs a plan and a loop one after the other, and aborts the second. -/
def aPlanAndALoop : List Action :=
  let settings : LoopSettings := { specId := "spec" }
  [.connect "", .awaited 0 .done,
    .receive 0 (.run "" (some { settings with mode := "plan_execute" })),
    .awaited 0 (.resolved none false), .awaited 0 (.created 0), .receive 0 .planApprove,
    .finish 0, .callback 0,
    .receive 0 (.run "" (some settings)), .awaited 0 (.resolved none false),
    .awaited 0 (.prepared false), .awaited 0 (.created 0), .awaited 0 .done,
    .receive 0 (.run "more" (some settings)), .awaited 0 .done, .receive 0 .abort]

theorem isSome_aPlanAndALoop : (machine.run start aPlanAndALoop).isSome := by decide +kernel

theorem one_run_aPlanAndALoop :
    machine.Always OneRun start aPlanAndALoop ↔ machine.Meets Orderly start aPlanAndALoop :=
  one_run_iff_orderly (Option.some_get isSome_aPlanAndALoop).symm

/-- Two clients of a session send a message while no run is on: both start one. -/
example : ¬machine.Meets Orderly start
    [.connect "", .connect "", .awaited 0 .done, .awaited 1 .done,
      .receive 0 (.run "a" (some { specId := "spec" })),
      .receive 1 (.run "b" (some { specId := "spec" })),
      .awaited 0 (.resolved none false), .awaited 1 (.resolved none false),
      .awaited 0 (.prepared false), .awaited 1 (.prepared false),
      .awaited 0 (.created 0), .awaited 0 .done, .awaited 1 (.created 1)] := by
  decide +kernel

/-- A session is deleted while its loop runs. -/
example : ¬machine.Meets Orderly start (aPlanAndALoop.take 13 ++ [.clearSession ""]) := by
  decide +kernel

/-! ## What reaches a run -/

/-- What is to be called for a message to a session whose run is on. -/
def dueCalls (task : Nat) : Agent → Message → List Call
  | .loop loop, .run text _ => [.queueUserMessage loop text]
  | .loop loop, .abort => [.abortLoop loop, .cancelTask task]
  | .runner runner, .abort => [.cancelRunner runner, .cancelTask task]
  | .runner runner, .planApprove => [.approvePlan runner]
  | .runner runner, .planReject reason => [.rejectPlan runner reason]
  | .runner runner, .planCancel => [.cancelRunner runner]
  | agent, .toolDecision toolCallId approved _ => [.decideTool agent toolCallId approved]
  | _, _ => []

/-- The message is one for the agent that runs: a text, with no runner of an old plan in the
way, a decision that no other agent waits for, or what is said to a plan. -/
def Meant (s : State) (run : RunTask) : Message → Prop
  | .run text _ => text ≠ "" ∧ s.planRunners.get run.session = none
  | .toolDecision toolCallId _ pending =>
    toolCallId ≠ "" ∧ ∀ agent, pending agent = true ↔ agent = run.agent
  | .abort => True
  | .planApprove => run.agent.isLoop = false
  | .planReject _ => run.agent.isLoop = false
  | .planCancel => run.agent.isLoop = false
  | _ => False

theorem calls_receiveRun (hbusy : s.isBusy session = true) {loop : LoopId}
    (hloop : s.cache.loops.get session = some loop) (hplan : s.planRunners.get session = none)
    {text : String} (htext : text ≠ "") (ws : Nat) (settings : Option LoopSettings) :
    (s.receiveRun ws session text settings).calls = s.calls ++ [.queueUserMessage loop text] := by
  unfold State.receiveRun
  rw [if_pos hbusy]
  simp only [hloop, hplan, if_pos htext]
  rfl

theorem calls_receiveAbort (hbusy : s.isBusy session = true)
    (htask : s.tasks.get session = some task) (ws : Nat) :
    (s.receiveAbort ws session).calls =
      s.calls ++ ((s.cache.loops.get session).toList.map Call.abortLoop ++
        (s.planRunners.get session).toList.map Call.cancelRunner ++ [.cancelTask task]) := by
  unfold State.receiveAbort
  simp only [LoopCache.get_fst, hbusy, htask, if_true, Option.toList_some, List.map_cons,
    List.map_nil]
  rfl

/-- A decision is offered to the loop, and then to the runner. -/
theorem calls_decideTool {toolCallId : String} (hid : toolCallId ≠ "")
    {pending : Agent → Bool} (hpending : ∀ other, pending other = true ↔ other = agent)
    (hholds : s.holds session agent) (ws : Nat) (approved : Bool) :
    ∃ calls, (s.decideTool ws session toolCallId approved pending).calls = s.calls ++ calls ∧
      Call.decideTool agent toolCallId approved ∈ calls := by
  unfold State.decideTool
  rw [if_neg hid]
  simp only [LoopCache.get_fst]
  cases agent with
  | loop loop =>
    have hloop : s.cache.loops.get session = some loop := hholds
    have hany : ((s.cache.loops.get session).toList.map Agent.loop).any pending = true := by
      simp [hloop, hpending]
    rw [if_pos hany]
    exact ⟨_, rfl, by simp [hloop]⟩
  | runner runner =>
    have hrunner : s.planRunners.get session = some runner := hholds
    have hother : ((s.cache.loops.get session).toList.map Agent.loop).any pending ≠ true := by
      simp [hpending]
    have hany : ((s.planRunners.get session).toList.map Agent.runner).any pending = true := by
      simp [hrunner, hpending]
    rw [if_neg hother, if_pos hany]
    exact ⟨_, rfl, by simp [hrunner]⟩

theorem dueCalls_receive (hs : OneRun s) (hrun : s.runs[task]? = some run)
    (hstatus : run.status = .running) {message : Message} (hmeant : Meant s run message)
    (ws : Nat) :
    ∃ calls, (s.receive ws run.session message).calls = s.calls ++ calls ∧
      dueCalls task run.agent message ⊆ calls := by
  have hbusy := hs.isBusy hrun hstatus
  obtain ⟨htask, hholds⟩ := hs task run hrun hstatus
  -- what is said to a plan is said to the runner that is stored
  have hplan : run.agent.isLoop = false → ∃ runner, run.agent = .runner runner ∧
      s.planRunners.get run.session = some runner := by
    intro hloop
    cases hagent : run.agent with
    | loop loop => simp [hagent, Agent.isLoop] at hloop
    | runner runner => exact ⟨runner, rfl, by rw [hagent] at hholds; exact hholds⟩
  cases message with
  | run text settings =>
    cases hagent : run.agent with
    | loop loop =>
      rw [hagent] at hholds
      exact ⟨_, calls_receiveRun hbusy hholds hmeant.2 hmeant.1 ws settings,
        List.Subset.refl _⟩
    | runner runner =>
      rw [hagent] at hholds
      exact absurd (hmeant.2.symm.trans hholds) (by simp)
  | abort =>
    refine ⟨_, calls_receiveAbort hbusy htask ws, ?_⟩
    cases hagent : run.agent with
    | loop loop =>
      rw [hagent] at hholds
      have hloop : s.cache.loops.get run.session = some loop := hholds
      simp [dueCalls, hloop]
    | runner runner =>
      rw [hagent] at hholds
      have hrunner : s.planRunners.get run.session = some runner := hholds
      simp [dueCalls, hrunner]
  | toolDecision toolCallId approved pending =>
    obtain ⟨calls, hcalls, hmem⟩ := calls_decideTool hmeant.1 hmeant.2 hholds ws approved
    refine ⟨calls, hcalls, ?_⟩
    cases hagent : run.agent <;> simpa [dueCalls, hagent] using hmem
  | planApprove =>
    obtain ⟨runner, hagent, hrunner⟩ := hplan hmeant
    unfold State.receive
    simp only [hrunner, hagent]
    exact ⟨_, rfl, List.Subset.refl _⟩
  | planReject reason =>
    obtain ⟨runner, hagent, hrunner⟩ := hplan hmeant
    unfold State.receive
    simp only [hrunner, hagent]
    exact ⟨_, rfl, List.Subset.refl _⟩
  | planCancel =>
    obtain ⟨runner, hagent, hrunner⟩ := hplan hmeant
    unfold State.receive
    simp only [hrunner, hagent]
    exact ⟨_, rfl, List.Subset.refl _⟩
  | planResume settings => exact hmeant.elim
  | planDiscard => exact hmeant.elim
  | unsupported => exact hmeant.elim

/-- While the steps are orderly, what is sent to a session reaches its run. -/
theorem messages_reach_the_run {as : List Action} (hrun : machine.run start as = some s)
    (hm : machine.Meets Orderly start as) (htask : s.runs[task]? = some run)
    (hstatus : run.status = .running) {message : Message} (hmeant : Meant s run message)
    (ws : Nat) :
    ∃ calls, (s.receive ws run.session message).calls = s.calls ++ calls ∧
      dueCalls task run.agent message ⊆ calls :=
  dueCalls_receive ((one_run_iff_orderly hrun).mpr hm as s (List.prefix_refl _) hrun) htask hstatus
    hmeant ws

/-- The loop runs. -/
def theLoopRuns : State := (machine.run start (aPlanAndALoop.take 13)).get (by decide +kernel)

theorem messages_reach_theLoop :
    ∃ calls, (theLoopRuns.receive 0 "" (.run "more" none)).calls = theLoopRuns.calls ++ calls ∧
      dueCalls 1 (.loop 0) (.run "more" none) ⊆ calls :=
  messages_reach_the_run (Option.some_get _).symm (by decide +kernel)
    (show theLoopRuns.runs[1]? = some ⟨"", .loop 0, true, .running⟩ by decide +kernel) rfl
    (show Meant theLoopRuns ⟨"", .loop 0, true, .running⟩ (.run "more" none) from
      ⟨by decide, by decide +kernel⟩) 0

end NeuralHub.WebSocket
