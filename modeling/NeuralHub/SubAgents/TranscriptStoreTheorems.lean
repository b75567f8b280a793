/-
NeuralHub.SubAgents.TranscriptStoreTheorems — the store is a bounded log.

A plain log is the list of the calls. `Describes` says that a run is what
its calls since it was created add up to: the roles in order of first
touch, and for each agent what `Logged` says of its entries and its status.
`describes_touchAgent` is the step; each of the three calls is one or
several of them.

`BoundedLog` says the same of the whole store: the runs it holds are the
`maxRuns` that were touched last, and each of them is described by the
calls from its last creation on. `recordAll_boundedLog` is the induction.
-/
import NeuralHub.SubAgents.TranscriptStore

namespace NeuralHub.SubAgents

open NeuralHub.Lib (Table recent recent_concat mem_recent_concat rtake_concat eraseDups_concat)

variable {Time : Type}

/-! ## What the calls say -/

namespace TranscriptCall

/-- The roles that a call touches. -/
def roles : TranscriptCall Time → List String
  | spawned _ _ _ roles _ _ => roles
  | entry _ _ _ role .. | done _ _ _ role .. => [role]

/-- The entry that a call records for a role. -/
def recorded? (limits : TranscriptLimits) (role : String) :
    TranscriptCall Time → Option (TranscriptEntry Time)
  | entry now _ _ entryRole kind content _ isError =>
      if entryRole = role then some ⟨kind, clipContent content limits.maxChars, isError, now⟩
      else none
  | _ => none

/-- The status that a `record_done` sets for a role. -/
def settled? (role : String) : TranscriptCall Time → Option AgentStatus
  | done _ _ _ doneRole _ error skipped =>
      if doneRole = role then some (statusOf error skipped) else none
  | _ => none

end TranscriptCall

def rolesTouched (calls : List (TranscriptCall Time)) : List String :=
  calls.flatMap TranscriptCall.roles

def recorded (limits : TranscriptLimits) (calls : List (TranscriptCall Time)) (role : String) :
    List (TranscriptEntry Time) :=
  calls.filterMap (TranscriptCall.recorded? limits role)

def settled (calls : List (TranscriptCall Time)) (role : String) : List AgentStatus :=
  calls.filterMap (TranscriptCall.settled? role)

section

variable {limits : TranscriptLimits} {calls : List (TranscriptCall Time)}
  {call : TranscriptCall Time} {role : String}

theorem recorded?_of_notMem (h : role ∉ call.roles) : call.recorded? limits role = none := by
  cases call with
  | entry _ _ _ entryRole =>
    have hne : ¬entryRole = role := fun he => h (List.mem_singleton.mpr he.symm)
    rw [TranscriptCall.recorded?, if_neg hne]
  | _ => rfl

theorem settled?_of_notMem (h : role ∉ call.roles) : call.settled? role = none := by
  cases call with
  | done _ _ _ doneRole =>
    have hne : ¬doneRole = role := fun he => h (List.mem_singleton.mpr he.symm)
    rw [TranscriptCall.settled?, if_neg hne]
  | _ => rfl

theorem recorded_of_notMem (h : role ∉ rolesTouched calls) : recorded limits calls role = [] :=
  List.filterMap_eq_nil_iff.mpr fun call hmem =>
    recorded?_of_notMem fun hrole => h (List.mem_flatMap.mpr ⟨call, hmem, hrole⟩)

theorem settled_of_notMem (h : role ∉ rolesTouched calls) : settled calls role = [] :=
  List.filterMap_eq_nil_iff.mpr fun call hmem =>
    settled?_of_notMem fun hrole => h (List.mem_flatMap.mpr ⟨call, hmem, hrole⟩)

theorem recorded_concat (limits : TranscriptLimits) (calls : List (TranscriptCall Time))
    (call : TranscriptCall Time) (role : String) :
    recorded limits (calls ++ [call]) role =
      recorded limits calls role ++ (call.recorded? limits role).toList := by
  rw [recorded, List.filterMap_append, ← recorded]
  cases h : call.recorded? limits role with
  | none => rw [List.filterMap_cons_none h]; rfl
  | some entry => rw [List.filterMap_cons_some h]; rfl

theorem settled_concat (calls : List (TranscriptCall Time)) (call : TranscriptCall Time)
    (role : String) :
    settled (calls ++ [call]) role = settled calls role ++ (call.settled? role).toList := by
  rw [settled, List.filterMap_append, ← settled]
  cases h : call.settled? role with
  | none => rw [List.filterMap_cons_none h]; rfl
  | some status => rw [List.filterMap_cons_some h]; rfl

theorem statusOf_ne_pending (error : String) (skipped : Bool) :
    statusOf error skipped ≠ .pending := by
  unfold statusOf
  split
  · exact fun h => nomatch h
  · split
    · exact fun h => nomatch h
    · exact fun h => nomatch h

theorem ne_pending_of_mem_settled {status : AgentStatus} (h : status ∈ settled calls role) :
    status ≠ .pending := by
  obtain ⟨call, -, hcall⟩ := List.mem_filterMap.mp h
  cases call with
  | done now runId source doneRole stage error skipped =>
    rw [TranscriptCall.settled?, Option.ite_none_right_eq_some] at hcall
    cases hcall.2
    exact statusOf_ne_pending error skipped
  | _ => cases hcall

end

/-! ## One agent -/

/-- The agent holds the last entries of its role, counts the others, and has the
status of the last `record_done`. -/
structure Logged (limits : TranscriptLimits) (calls : List (TranscriptCall Time))
    (agent : AgentTranscript Time) : Prop where
  entries : agent.entries = (recorded limits calls agent.role).rtake limits.maxEntries
  counted : agent.dropped + agent.entries.length = (recorded limits calls agent.role).length
  status : ∀ status, (settled calls agent.role).getLast? = some status → agent.status = status

section

variable {limits : TranscriptLimits} {calls : List (TranscriptCall Time)}
  {agent agent' : AgentTranscript Time}

/-- The other fields of an agent say nothing about its log. -/
theorem Logged.congr (h : Logged limits calls agent) (hrole : agent'.role = agent.role)
    (hentries : agent'.entries = agent.entries) (hdropped : agent'.dropped = agent.dropped)
    (hstatus : agent'.status = agent.status) : Logged limits calls agent' where
  entries := by rw [hentries, hrole, h.entries]
  counted := by rw [hdropped, hentries, hrole, h.counted]
  status := by rw [hrole, hstatus]; exact h.status

theorem Logged.of_untouched {role : String} {stage : Option Int} {startedAt updatedAt : Time}
    (h : role ∉ rolesTouched calls) :
    Logged limits calls ⟨role, stage, .pending, "", 0, startedAt, updatedAt, []⟩ where
  entries := by rw [recorded_of_notMem h, List.rtake_nil]
  counted := by rw [recorded_of_notMem h]; rfl
  status := by
    intro status hlast
    rw [settled_of_notMem h] at hlast
    cases hlast

/-- Nothing is logged for an agent that a call does not touch. -/
theorem Logged.concat_of_notMem {call : TranscriptCall Time} (h : Logged limits calls agent)
    (hrec : call.recorded? limits agent.role = none) (hset : call.settled? agent.role = none) :
    Logged limits (calls ++ [call]) agent := by
  have hrecorded : recorded limits (calls ++ [call]) agent.role =
      recorded limits calls agent.role := by
    rw [recorded_concat, hrec, Option.toList_none, List.append_nil]
  have hsettled : settled (calls ++ [call]) agent.role = settled calls agent.role := by
    rw [settled_concat, hset, Option.toList_none, List.append_nil]
  exact ⟨by rw [hrecorded, h.entries], by rw [hrecorded, h.counted],
    by rw [hsettled]; exact h.status⟩

@[simp] theorem start_role : agent.start.role = agent.role := by
  unfold AgentTranscript.start
  split <;> rfl

@[simp] theorem start_entries : agent.start.entries = agent.entries := by
  unfold AgentTranscript.start
  split <;> rfl

@[simp] theorem start_dropped : agent.start.dropped = agent.dropped := by
  unfold AgentTranscript.start
  split <;> rfl

/-- A status that `record_done` has set is not `pending`, so it stays. -/
theorem Logged.start (h : Logged limits calls agent) : Logged limits calls agent.start where
  entries := by rw [start_role, start_entries, h.entries]
  counted := by rw [start_role, start_entries, start_dropped, h.counted]
  status := by
    intro status hlast
    rw [start_role] at hlast
    have hstatus := h.status status hlast
    have hne : agent.status ≠ .pending :=
      hstatus ▸ ne_pending_of_mem_settled (List.mem_of_getLast? hlast)
    rw [AgentTranscript.start, if_neg hne, hstatus]

theorem appendEntry_eq (agent : AgentTranscript Time) (entry : TranscriptEntry Time)
    (maxEntries : Nat) :
    (agent.appendEntry entry maxEntries).role = agent.role ∧
    (agent.appendEntry entry maxEntries).status = agent.status ∧
    (agent.appendEntry entry maxEntries).entries =
      (if maxEntries < (agent.entries ++ [entry]).length then (agent.entries ++ [entry]).tail
      else agent.entries ++ [entry]) ∧
    (agent.appendEntry entry maxEntries).dropped +
      (agent.appendEntry entry maxEntries).entries.length =
      agent.dropped + agent.entries.length + 1 := by
  unfold AgentTranscript.appendEntry
  simp only
  split
  · refine ⟨rfl, rfl, rfl, ?_⟩
    simp only [List.length_tail, List.length_append, List.length_singleton]
    omega
  · refine ⟨rfl, rfl, rfl, ?_⟩
    simp only [List.length_append, List.length_singleton]
    omega

theorem Logged.appendEntry {call : TranscriptCall Time} {entry : TranscriptEntry Time}
    (hmax : 1 ≤ limits.maxEntries) (h : Logged limits calls agent)
    (hrec : call.recorded? limits agent.role = some entry)
    (hset : call.settled? agent.role = none) :
    Logged limits (calls ++ [call]) (agent.appendEntry entry limits.maxEntries) := by
  have hrecorded : recorded limits (calls ++ [call]) agent.role =
      recorded limits calls agent.role ++ [entry] := by
    rw [recorded_concat, hrec, Option.toList_some]
  have hsettled : settled (calls ++ [call]) agent.role = settled calls agent.role := by
    rw [settled_concat, hset, Option.toList_none, List.append_nil]
  obtain ⟨hrole, hstatus, hentries, hcounted⟩ := appendEntry_eq agent entry limits.maxEntries
  constructor
  · rw [hrole, hrecorded, hentries, rtake_concat hmax, ← h.entries]
  · rw [hcounted, hrole, hrecorded, h.counted, List.length_append, List.length_singleton]
  · rw [hrole, hsettled, hstatus]
    exact h.status

theorem Logged.settle {call : TranscriptCall Time} {status : AgentStatus} {error : String}
    (h : Logged limits calls agent) (hrec : call.recorded? limits agent.role = none)
    (hset : call.settled? agent.role = some status) :
    Logged limits (calls ++ [call]) { agent with status := status, error := error } := by
  have hrecorded : recorded limits (calls ++ [call]) agent.role =
      recorded limits calls agent.role := by
    rw [recorded_concat, hrec, Option.toList_none, List.append_nil]
  have hsettled : settled (calls ++ [call]) agent.role = settled calls agent.role ++ [status] := by
    rw [settled_concat, hset, Option.toList_some]
  constructor
  · rw [hrecorded]
    exact h.entries
  · rw [hrecorded]
    exact h.counted
  · intro last hlast
    rw [hsettled, List.getLast?_concat, Option.some_inj] at hlast
    exact hlast

end

/-! ## One run -/

/-- The run is what the calls add up to. `touched` are the roles touched so far, those
of `calls` and those that a call in progress has reached. -/
structure Describes (limits : TranscriptLimits) (touched : List String)
    (calls : List (TranscriptCall Time)) (run : RunTranscript Time) : Prop where
  order : run.order = touched.eraseDups
  agents : ∀ role, (run.agents.find role).isSome ↔ role ∈ run.order
  logged : ∀ role agent, run.agents.find role = some agent → Logged limits calls agent

section

variable {limits : TranscriptLimits} {calls calls' : List (TranscriptCall Time)}
  {touched : List String} {run : RunTranscript Time}
  {role : String} {stage : Option Int} {change : AgentTranscript Time → AgentTranscript Time}

theorem agent_role (run : RunTranscript Time) (role : String) (stage : Option Int) :
    (run.agent role stage).role = role := by
  unfold RunTranscript.agent
  cases hfind : run.agents.find role with
  | none => simp only [Option.getD_none]; split <;> rfl
  | some held =>
    have hrole : held.role = role := Table.key_of_find hfind
    simp only [Option.getD_some]
    split <;> exact hrole

/-- The agent that `_touch_agent` returns is the one that is there, or has no log. -/
theorem Describes.agent (h : Describes limits touched calls run)
    (hcalls : ∀ role ∈ rolesTouched calls, role ∈ touched) (role : String) (stage : Option Int) :
    Logged limits calls (run.agent role stage) := by
  unfold RunTranscript.agent
  cases hfind : run.agents.find role with
  | none =>
    have hnew : role ∉ rolesTouched calls := fun hmem => by
      have hsome := (h.agents role).mpr (h.order ▸ List.mem_eraseDups.mpr (hcalls role hmem))
      rw [hfind] at hsome
      cases hsome
    simp only [Option.getD_none]
    split
    · exact (Logged.of_untouched hnew).congr rfl rfl rfl rfl
    · exact (Logged.of_untouched hnew).congr rfl rfl rfl rfl
  | some held =>
    simp only [Option.getD_some]
    split
    · exact (h.logged role held hfind).congr rfl rfl rfl rfl
    · exact (h.logged role held hfind).congr rfl rfl rfl rfl

theorem find_touchAgent (hkeep : ∀ agent, (change agent).role = agent.role) (other : String) :
    (run.touchAgent role stage change).agents.find other =
      if other = role then some (change (run.agent role stage)) else run.agents.find other := by
  rw [RunTranscript.touchAgent, Table.find_put, hkeep, agent_role]

/-- One touched role, changed as the calls of `calls'` say. -/
theorem Describes.touchAgent (h : Describes limits touched calls run)
    (hcalls : ∀ role ∈ rolesTouched calls, role ∈ touched)
    (hkeep : ∀ agent, (change agent).role = agent.role)
    (hself : ∀ agent : AgentTranscript Time, agent.role = role →
      Logged limits calls agent → Logged limits calls' (change agent))
    (hother : ∀ agent : AgentTranscript Time, agent.role ≠ role →
      Logged limits calls agent → Logged limits calls' agent) :
    Describes limits (touched ++ [role]) calls' (run.touchAgent role stage change) := by
  have hmem : (run.agents.find role).isSome ↔ role ∈ touched := by
    rw [h.agents, h.order, List.mem_eraseDups]
  have horder : (run.touchAgent role stage change).order = (touched ++ [role]).eraseDups := by
    rw [eraseDups_concat, ← h.order]
    exact if_congr hmem rfl rfl
  refine ⟨horder, fun other => ?_, fun other agent hfind => ?_⟩
  · rw [horder, List.mem_eraseDups, List.mem_append, List.mem_singleton, find_touchAgent hkeep]
    split
    · next heq => simp [heq]
    · next hne => rw [h.agents, h.order, List.mem_eraseDups, or_iff_left hne]
  · rw [find_touchAgent hkeep] at hfind
    split at hfind
    · cases hfind
      exact hself _ (agent_role run role stage) (h.agent hcalls role stage)
    · next hne =>
      have hrole : agent.role = other := Table.key_of_find hfind
      exact hother agent (hrole ▸ hne) (h.logged other agent hfind)

/-- Several touched roles that are only started. -/
theorem Describes.spawn (hkeep : ∀ agent, (change agent).role = agent.role)
    (hlogged : ∀ agent, Logged limits calls agent → Logged limits calls (change agent)) :
    ∀ (roles : List String) (touched : List String) (run : RunTranscript Time),
      (∀ role ∈ rolesTouched calls, role ∈ touched) → Describes limits touched calls run →
      Describes limits (touched ++ roles) calls
        (roles.foldl (fun run role => run.touchAgent role stage change) run)
  | [], touched, run, _, h => by
      rw [List.append_nil]
      exact h
  | role :: roles, touched, run, hcalls, h => by
      have hstep : Describes limits (touched ++ [role]) calls (run.touchAgent role stage change) :=
        h.touchAgent hcalls hkeep (fun agent _ => hlogged agent) fun _ _ hlog => hlog
      have hrun := Describes.spawn hkeep hlogged roles (touched ++ [role])
        (run.touchAgent role stage change)
        (fun r hr => List.mem_append_left _ (hcalls r hr)) hstep
      rw [List.append_assoc, List.singleton_append] at hrun
      exact hrun

end

/-! ## One call -/

section

variable {limits : TranscriptLimits} {calls : List (TranscriptCall Time)}
  {run : RunTranscript Time}

theorem rolesTouched_concat (calls : List (TranscriptCall Time)) (call : TranscriptCall Time) :
    rolesTouched (calls ++ [call]) = rolesTouched calls ++ call.roles := by
  rw [rolesTouched, List.flatMap_append, List.flatMap_singleton]
  rfl

/-- The other fields of a run say nothing about its agents. -/
theorem Describes.congr {run' : RunTranscript Time} {touched : List String}
    (h : Describes limits touched calls run) (horder : run'.order = run.order)
    (hagents : run'.agents = run.agents) : Describes limits touched calls run' where
  order := horder.trans h.order
  agents := by rw [hagents, horder]; exact h.agents
  logged := by rw [hagents]; exact h.logged

theorem Describes.concat_of_unlogged {call : TranscriptCall Time} {touched : List String}
    (h : Describes limits touched calls run) (hrec : ∀ role, call.recorded? limits role = none)
    (hset : ∀ role, call.settled? role = none) :
    Describes limits touched (calls ++ [call]) run where
  order := h.order
  agents := h.agents
  logged role agent hfind :=
    (h.logged role agent hfind).concat_of_notMem (hrec agent.role) (hset agent.role)

/-- A call writes what it says. -/
theorem Describes.write (hmax : 1 ≤ limits.maxEntries) (call : TranscriptCall Time)
    (h : Describes limits (rolesTouched calls) calls run) (hnow : run.updatedAt = call.now) :
    Describes limits (rolesTouched (calls ++ [call])) (calls ++ [call])
      (call.write limits run) := by
  have hcalls : ∀ role ∈ rolesTouched calls, role ∈ rolesTouched calls := fun _ hr => hr
  rw [rolesTouched_concat]
  cases call with
  | spawned now runId source roles stage message =>
    refine Describes.concat_of_unlogged ?_ (fun _ => rfl) fun _ => rfl
    refine Describes.spawn (fun agent => ?_) (fun agent hlog => ?_) roles _ _ hcalls ?_
    · split
      · exact start_role
      · rfl
    · split
      · exact hlog.start
      · exact hlog
    · split
      · exact h.congr rfl rfl
      · exact h
  | entry now runId source role kind content stage isError =>
    simp only [TranscriptCall.write, TranscriptCall.roles]
    refine h.touchAgent hcalls (fun agent => ?_) (fun agent hrole hlog => ?_)
      fun agent hne hlog => ?_
    · rw [(appendEntry_eq _ _ _).1, start_role]
    · refine hlog.start.appendEntry hmax ?_ rfl
      rw [start_role, TranscriptCall.recorded?, if_pos hrole.symm, hnow]
      rfl
    · exact hlog.concat_of_notMem (recorded?_of_notMem fun hmem => hne (List.mem_singleton.mp hmem))
        rfl
  | done now runId source role stage error skipped =>
    simp only [TranscriptCall.write, TranscriptCall.roles]
    refine h.touchAgent hcalls (fun agent => rfl) (fun agent hrole hlog => ?_)
      fun agent hne hlog => ?_
    · refine hlog.settle rfl ?_
      rw [TranscriptCall.settled?, if_pos hrole.symm]
    · exact hlog.concat_of_notMem rfl
        (settled?_of_notMem fun hmem => hne (List.mem_singleton.mp hmem))

theorem touchAgent_runId (run : RunTranscript Time) (role : String) (stage : Option Int)
    (change : AgentTranscript Time → AgentTranscript Time) :
    (run.touchAgent role stage change).runId = run.runId := rfl

theorem foldl_touchAgent_runId (stage : Option Int)
    (change : AgentTranscript Time → AgentTranscript Time) (roles : List String)
    (run : RunTranscript Time) :
    (roles.foldl (fun run role => run.touchAgent role stage change) run).runId = run.runId := by
  induction roles generalizing run with
  | nil => rfl
  | cons role roles ih => exact (ih _).trans (touchAgent_runId run role stage change)

theorem write_runId (limits : TranscriptLimits) (call : TranscriptCall Time)
    (run : RunTranscript Time) : (call.write limits run).runId = run.runId := by
  cases call with
  | spawned now runId source roles stage message =>
    refine (foldl_touchAgent_runId _ _ roles _).trans ?_
    split <;> rfl
  | entry => rfl
  | done => rfl

end

/-! ## The store -/

def ofRun (runId : String) (calls : List (TranscriptCall Time)) : List (TranscriptCall Time) :=
  calls.filter fun call => call.runId = runId

/-- `call` came after `before` and created the run, which is held since then. -/
structure CreatedAt (limits : TranscriptLimits) (runId : String)
    (before : List (TranscriptCall Time)) (call : TranscriptCall Time)
    (since : List (TranscriptCall Time)) : Prop where
  created : call.runId = runId
  fresh : (TranscriptStore.recordAll limits before).getRun runId = none
  kept : ∀ mid, mid <+: since →
    ((TranscriptStore.recordAll limits (before ++ call :: mid)).getRun runId).isSome

/-- The run is what its calls add up to, from the one that created it on. -/
def DescribedSinceCreation (limits : TranscriptLimits) (calls : List (TranscriptCall Time))
    (run : RunTranscript Time) : Prop :=
  ∃ before call since,
    calls = before ++ call :: since ∧ CreatedAt limits run.runId before call since ∧
      Describes limits (rolesTouched (ofRun run.runId (call :: since)))
        (ofRun run.runId (call :: since)) run

/-- The store after `calls`: the runs touched last, each described by its calls since
its last creation. -/
structure BoundedLog (limits : TranscriptLimits) (calls : List (TranscriptCall Time))
    (store : TranscriptStore Time) : Prop where
  held : store.entries.map RunTranscript.runId =
    (recent limits.maxRuns (calls.map TranscriptCall.runId)).reverse
  listed : store.listRuns.map RunSummary.runId =
    recent limits.maxRuns (calls.map TranscriptCall.runId)
  described : ∀ run ∈ store.entries, DescribedSinceCreation limits calls run

section

open TranscriptStore

variable {limits : TranscriptLimits} {calls : List (TranscriptCall Time)}

theorem recordAll_concat (limits : TranscriptLimits) (calls : List (TranscriptCall Time))
    (call : TranscriptCall Time) :
    recordAll limits (calls ++ [call]) = (recordAll limits calls).record limits call := by
  rw [recordAll, List.foldl_append]
  rfl

theorem touched_runId (store : TranscriptStore Time) (call : TranscriptCall Time) :
    (store.touched call).runId = call.runId := by
  unfold touched
  cases hfind : store.find call.runId with
  | none => rfl
  | some run =>
    have hid : run.runId = call.runId := Table.key_of_find hfind
    exact hid

theorem map_runId_listRuns (store : TranscriptStore Time) :
    store.listRuns.map RunSummary.runId = (store.entries.map RunTranscript.runId).reverse := by
  rw [listRuns, List.map_map, ← List.map_reverse]
  rfl

/-- The runs that are held, the one touched last first. -/
theorem held_recordAll (hruns : 1 ≤ limits.maxRuns) (calls : List (TranscriptCall Time)) :
    ((recordAll limits calls).entries.map RunTranscript.runId).reverse =
      recent limits.maxRuns (calls.map TranscriptCall.runId) := by
  induction calls using List.reverseRecOn with
  | nil => exact List.take_nil.symm
  | append_singleton calls call ih =>
    rw [recordAll_concat, record, Table.map_key_keepLast_putLast, ih, write_runId, touched_runId,
      List.map_append, List.map_singleton, recent_concat hruns]

theorem isSome_getRun_iff (hruns : 1 ≤ limits.maxRuns) {runId : String} :
    ((recordAll limits calls).getRun runId).isSome ↔
      runId ∈ recent limits.maxRuns (calls.map TranscriptCall.runId) := by
  rw [getRun, Table.find_isSome_iff, ← held_recordAll hruns, List.mem_reverse]

/-- The run of the last call is held. -/
theorem isSome_getRun_concat (hruns : 1 ≤ limits.maxRuns) (calls : List (TranscriptCall Time))
    (call : TranscriptCall Time) :
    ((recordAll limits (calls ++ [call])).getRun call.runId).isSome := by
  rw [isSome_getRun_iff hruns, List.map_append, List.map_singleton]
  exact mem_recent_concat hruns _ _

/-- One more call, after which the run is still held. -/
theorem CreatedAt.concat {runId : String} {before since : List (TranscriptCall Time)}
    {call next : TranscriptCall Time} (h : CreatedAt limits runId before call since)
    (hheld : ((recordAll limits (before ++ call :: since ++ [next])).getRun runId).isSome) :
    CreatedAt limits runId before call (since ++ [next]) where
  created := h.created
  fresh := h.fresh
  kept mid hmid := by
    rcases List.prefix_concat_iff.mp hmid with rfl | hmid
    · rw [List.append_assoc] at hheld
      exact hheld
    · exact h.kept mid hmid

theorem ofRun_concat_self (calls : List (TranscriptCall Time)) (call : TranscriptCall Time) :
    ofRun call.runId (calls ++ [call]) = ofRun call.runId calls ++ [call] := by
  rw [ofRun, List.filter_append, List.filter_cons_of_pos (by simp), List.filter_nil]
  rfl

theorem ofRun_concat_of_ne {runId : String} {call : TranscriptCall Time}
    (h : call.runId ≠ runId) : ofRun runId (calls ++ [call]) = ofRun runId calls := by
  rw [ofRun, List.filter_append, List.filter_cons_of_neg (by simpa using h), List.filter_nil,
    List.append_nil]
  rfl

theorem describes_new (limits : TranscriptLimits) (call : TranscriptCall Time) :
    Describes limits (@rolesTouched Time []) []
      (⟨call.runId, call.source, "", call.now, call.now, .empty, []⟩ : RunTranscript Time) where
  order := rfl
  agents _ := by
    constructor
    · exact fun h => nomatch h
    · exact fun h => nomatch h
  logged _ _ hfind := nomatch hfind

/-- The run that a call creates. -/
theorem described_created (hruns : 1 ≤ limits.maxRuns) (hentries : 1 ≤ limits.maxEntries)
    {call : TranscriptCall Time} (hfind : (recordAll limits calls).find call.runId = none) :
    DescribedSinceCreation limits (calls ++ [call])
      (call.write limits (touched (recordAll limits calls) call)) := by
  have hcreated : CreatedAt limits call.runId calls call [] := by
    refine ⟨rfl, hfind, fun mid hmid => ?_⟩
    rw [List.prefix_nil.mp hmid]
    exact isSome_getRun_concat hruns calls call
  have hdescribed := (describes_new limits call).write hentries call rfl
  refine ⟨calls, call, [], rfl, ?_⟩
  rw [write_runId, touched_runId, touched, hfind]
  rw [show ofRun call.runId [call] = [call] from ofRun_concat_self [] call]
  exact ⟨hcreated, hdescribed⟩

/-- The run that a call finds. -/
theorem described_found (hruns : 1 ≤ limits.maxRuns) (hentries : 1 ≤ limits.maxEntries)
    {call : TranscriptCall Time} {run : RunTranscript Time}
    (hfind : (recordAll limits calls).find call.runId = some run)
    (h : DescribedSinceCreation limits calls run) :
    DescribedSinceCreation limits (calls ++ [call])
      (call.write limits (touched (recordAll limits calls) call)) := by
  have hid : run.runId = call.runId := Table.key_of_find hfind
  obtain ⟨before, first, since, rfl, hcreated, hdescribed⟩ := h
  rw [hid] at hcreated hdescribed
  let found : RunTranscript Time := { run with updatedAt := call.now }
  have hfound : Describes limits (rolesTouched (ofRun call.runId (first :: since)))
      (ofRun call.runId (first :: since)) found := hdescribed.congr rfl rfl
  have hnext := hfound.write hentries call rfl
  have hheld := isSome_getRun_concat hruns (before ++ first :: since) call
  refine ⟨before, first, since ++ [call], by rw [List.append_assoc]; rfl, ?_⟩
  rw [write_runId, touched_runId, ← List.cons_append, ofRun_concat_self, touched, hfind]
  exact ⟨hcreated.concat hheld, hnext⟩

/-- What holds of the runs in the store, step by step. -/
theorem described_recordAll (hruns : 1 ≤ limits.maxRuns) (hentries : 1 ≤ limits.maxEntries)
    (calls : List (TranscriptCall Time)) :
    ∀ run ∈ (recordAll limits calls).entries, DescribedSinceCreation limits calls run := by
  induction calls using List.reverseRecOn with
  | nil => exact fun run hmem => nomatch hmem
  | append_singleton calls call ih =>
    intro run hmem
    have hheld : ((recordAll limits (calls ++ [call])).getRun run.runId).isSome := by
      rw [getRun, Table.find_of_mem hmem]
      rfl
    rw [recordAll_concat] at hmem
    rcases Table.mem_keepLast_putLast hmem with rfl | ⟨hold, hne⟩
    · cases hfind : (recordAll limits calls).find call.runId with
      | none => exact described_created hruns hentries hfind
      | some old => exact described_found hruns hentries hfind (ih old (Table.mem_of_find hfind))
    · rw [write_runId, touched_runId] at hne
      obtain ⟨before, first, since, rfl, hcreated, hdescribed⟩ := ih run hold
      refine ⟨before, first, since ++ [call], by rw [List.append_assoc]; rfl,
        hcreated.concat hheld, ?_⟩
      rw [← List.cons_append, ofRun_concat_of_ne (Ne.symm hne)]
      exact hdescribed

/-- The transcript store is a bounded recent log of the calls. -/
theorem recordAll_boundedLog (limits : TranscriptLimits) (hruns : 1 ≤ limits.maxRuns)
    (hentries : 1 ≤ limits.maxEntries) (calls : List (TranscriptCall Time)) :
    BoundedLog limits calls (recordAll limits calls) where
  held := by rw [← held_recordAll hruns, List.reverse_reverse]
  listed := by rw [map_runId_listRuns, held_recordAll hruns]
  described := described_recordAll hruns hentries calls

/-- Two runs take turns in a store of one run and one entry. -/
theorem recordAll_boundedLog_turns :
    let calls : List (TranscriptCall Nat) :=
      [.spawned 1 "a" "dag" ["reviewer"] none "", .entry 2 "b" "dag" "coder" "text" "x" none false,
        .entry 3 "a" "dag" "coder" "text" "y" none false, .done 4 "a" "dag" "coder" none "" false]
    BoundedLog ⟨1, 1, 6000⟩ calls (recordAll ⟨1, 1, 6000⟩ calls) :=
  recordAll_boundedLog ⟨1, 1, 6000⟩ (by decide) (by decide) _

end

end NeuralHub.SubAgents
