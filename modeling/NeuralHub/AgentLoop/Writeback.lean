/-
NeuralHub.AgentLoop.Writeback — `apply_layered_compaction` as a machine:
three stages one after the other, and other runs that append to the list
while a stage is awaited.

A stage starts from the list as it is then, its `snapshot`, and what it
returns is written over the whole list. `reattach_concurrent_messages`
puts back what came behind the snapshot meanwhile, unless the stage has it
already: the paths that return late return the list as it is by then.

`appended` reads off the actions what other runs have appended, in this
order. `summarised` is what a stage takes out of its snapshot.
-/
import NeuralHub.AgentLoop.SummariesTheorems
import NeuralHub.Lib.Machine

namespace NeuralHub.AgentLoop.Writeback

open NeuralHub.Lib

structure Config where
  archive : Archive
  reserveRecentCount : Nat
  dump : Message → List Char

inductive Point
  /-- `check_and_compact` -/
  | archiving (snapshot : List Message)
  /-- `summarize_and_archive` -/
  | summarizing (snapshot : List Message)
  /-- `ContextCompressor.compact` -/
  | compacting (snapshot : List Message)
  | returned

structure State where
  messages : List Message
  point : Point

inductive Action
  | append (m : Message)
  /-- `check_and_compact` returns what its passes made of the list -/
  | archived (readable : Bool) (paths : List String)
  /-- `check_and_compact` returns `list(messages)` after an exception -/
  | archiveFailed
  | summarized (id : Nat) (due : Bool) (run : ArchiveRun) (shouldCompact : Bool)
  | compacted (id : Nat) (outcome : SummaryOutcome)
  /-- an exception that a stage lets through -/
  | raised

/-- `apply_layered_compaction` is called. -/
def start (messages : List Message) : State := ⟨messages, .archiving messages⟩

def step (cfg : Config) (s : State) (a : Action) : Option State :=
  match a, s.point with
  | _, .returned => none
  | .append m, _ => some { s with messages := s.messages ++ [m] }
  | .archived readable paths, .archiving snapshot =>
    let compacted := checkAndCompact cfg.archive readable paths snapshot
    let messages := reattachConcurrentMessages compacted s.messages snapshot.length
    some ⟨messages, .summarizing messages⟩
  | .archiveFailed, .archiving snapshot =>
    let messages := reattachConcurrentMessages s.messages s.messages snapshot.length
    some ⟨messages, .summarizing messages⟩
  | .summarized id due run shouldCompact, .summarizing snapshot =>
    let summarized :=
      (LayeredCompressor.summarizeAndArchive cfg.dump id due run snapshot s.messages).2
    let messages := reattachConcurrentMessages summarized s.messages snapshot.length
    some ⟨messages, if shouldCompact then .compacting messages else .returned⟩
  | .compacted id outcome, .compacting snapshot =>
    match ContextCompressor.compact id cfg.reserveRecentCount outcome snapshot s.messages with
    | .ok compacted =>
      some ⟨reattachConcurrentMessages compacted s.messages snapshot.length, .returned⟩
    | .error _ => some { s with point := .returned }
  | .raised, _ => some { s with point := .returned }
  | _, _ => none

def machine (cfg : Config) : Machine State Action := ⟨step cfg⟩

/-! ## What happens to messages -/

def Action.appended : Action → Option Message
  | .append m => some m
  | _ => none

/-- What other runs have appended, in this order. -/
def appended (as : List Action) : List Message := as.filterMap Action.appended

/-- The ids that an action gives to new messages. -/
def Action.newIds : Action → List Nat
  | .append m => [m.id]
  | .summarized id _ _ _ | .compacted id _ => [id]
  | _ => []

def newIds (as : List Action) : List Nat := as.flatMap Action.newIds

/-- `_build_fallback_messages` ends the compaction. -/
def Action.fallsBack : Action → Bool
  | .compacted _ (.unexpected _) => true
  | _ => false

/-- The messages of the snapshot for which the stage's new summary stands. -/
def summarised (cfg : Config) (s : State) (a : Action) : List Message :=
  match a, s.point with
  | .summarized id true run _, .summarizing snapshot =>
    match Level3.summarizeArchive cfg.dump id run snapshot with
    | (some _, .ok _) => oldMessages recentKeepCount snapshot
    | _ => []
  | .compacted _ outcome, .compacting snapshot =>
    if (nonSystemMessages snapshot).length ≤ cfg.reserveRecentCount then []
    else
      match outcome with
      | .content _ | .failed _ => oldMessages cfg.reserveRecentCount snapshot
      | .unexpected _ => (oldMessages cfg.reserveRecentCount s.messages).filter (· ∈ snapshot)
      | .escaped _ => []
  | _, _ => []

/-- The machine with the messages that the stages have summarised. -/
def withSummarised (cfg : Config) : Machine (State × List Message) Action :=
  (machine cfg).withHistory fun s a _ gone => gone ++ summarised cfg s a

/-! ## Writing back -/

variable {snapshot since compacted : List Message}

/-- What came behind the snapshot is put behind the result that lacks it. -/
theorem reattach_of_fresh (h : ∀ m ∈ since, m.id ∉ compacted.map (·.id)) :
    reattachConcurrentMessages compacted (snapshot ++ since) snapshot.length = compacted ++ since := by
  have hfilter : (since.filter fun m => !(compacted.map (·.id)).contains m.id) = since := by
    refine List.filter_eq_self.mpr fun m hm => ?_
    simpa using h m hm
  unfold reattachConcurrentMessages
  simp only [List.drop_left, hfilter]
  split
  · rename_i hnil
    simp [hnil]
  · rfl

/-- Of what came behind the snapshot, only what the result lacks is put back. -/
theorem reattach_eq :
    reattachConcurrentMessages compacted (snapshot ++ since) snapshot.length =
      compacted ++ since.filter fun m => !(compacted.map (·.id)).contains m.id := by
  unfold reattachConcurrentMessages
  simp only [List.drop_left]
  split
  · rename_i hnil
    simp [hnil]
  · rfl

theorem reattach_live :
    reattachConcurrentMessages (snapshot ++ since) (snapshot ++ since) snapshot.length =
      snapshot ++ since := by
  have hfilter : (since.filter fun m => !((snapshot ++ since).map (·.id)).contains m.id) = [] := by
    refine List.filter_eq_nil_iff.mpr fun m hm => ?_
    simp only [Bool.not_eq_true, Bool.not_eq_false', List.contains_iff_mem]
    exact List.mem_map_of_mem (List.mem_append_right _ hm)
  rw [reattach_eq, hfilter, List.append_nil]

end NeuralHub.AgentLoop.Writeback
