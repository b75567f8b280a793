/-
NeuralHub.Plan.Checkpoints — the checkpoints of plans on disk:
`plan_checkpoint_store.py`.

A plan has up to three files. Their names share the stem
`{session_id}-{plan_name}`; the suffix says which one it is: `.json` is the
checkpoint, `.bak` the one before it, `.tmp` the one that is being
written. A file is kept with what `_load_state` makes of its text: a state,
or `none` for a text that is no state.

`save` is a short program of file operations (`saveOps`), so that it can be
cut off behind any of them (`saveUpTo`); it is `none` where the source
raises. One reading of the clock stands for the `updated_at` of a saved
state and for the time of its file; no function here reads `updated_at`.

Left out are the fields of a state that neither the store nor the runner
model reads, and `list_checkpoints`, which only lists names.
-/
import Mathlib.Data.List.Sort
import Mathlib.Data.String.Basic
import NeuralHub.Lib.Directory
import NeuralHub.Plan.Types

namespace NeuralHub.Plan

open NeuralHub.Lib

/-! ## Files -/

structure PlanState where
  planName : List Char
  sessionId : List Char
  ownerId : String := "unknown"
  phase : PlanPhase := .idle
  plan : Option ExecutionPlan := none
  todo : Option TodoState := none
  updatedAt : Int := 0
  deriving DecidableEq, Repr

inductive Suffix
  | json
  | bak
  | tmp
  deriving DecidableEq, Repr

def Suffix.text : Suffix → List Char
  | .json => ".json".toList
  | .bak => ".bak".toList
  | .tmp => ".tmp".toList

structure FileName where
  stem : List Char
  suffix : Suffix
  deriving DecidableEq, Repr

def FileName.text (name : FileName) : List Char := name.stem ++ name.suffix.text

/-- The directory of a `PlanCheckpointStore`. -/
abbrev Checkpoints := Dir FileName (Option PlanState)

/-- `_load_state`. -/
def loadState (dir : Checkpoints) (name : FileName) : Option PlanState :=
  (dir.find name).bind (·.content)

/-! ## Names -/

def isPlanChar (c : Char) : Bool := ('a' ≤ c && c ≤ 'z') || ('0' ≤ c && c ≤ '9')

def isFileChar (c : Char) : Bool :=
  isPlanChar c || ('A' ≤ c && c ≤ 'Z') || c == '_' || c == '.' || c == '-'

/-- `_validate_plan_name`: lower case words and numbers with single hyphens in between. -/
def validatePlanName (name : List Char) : Except String Unit :=
  if (name.splitOn '-').all fun part => !part.isEmpty && part.all isPlanChar then .ok ()
  else .error ("Invalid plan name: " ++ String.ofList name)

def validateFilePart (value : List Char) (fieldName : String) : Except String Unit :=
  if value.isEmpty || !value.all isFileChar then
    .error ("Invalid " ++ fieldName ++ ": " ++ String.ofList value)
  else .ok ()

/-- The stem of the three files of a plan. -/
def stemOf (sessionId planName : List Char) : List Char := sessionId ++ '-' :: planName

/-- `_path_for`, without the suffix. -/
def pathFor (sessionId planName : List Char) : Except String (List Char) := do
  validateFilePart sessionId "session_id"
  validatePlanName planName
  return stemOf sessionId planName

def PlanState.stem (state : PlanState) : List Char := stemOf state.sessionId state.planName

/-- `glob(f"{session_id}-*.json")` and its like. -/
def namedFor (sessionId : List Char) (suffix : Suffix) (name : FileName) : Bool :=
  name.suffix == suffix && (sessionId ++ ['-']).isPrefixOf name.stem

/-! ## Saving -/

/-- A call of `save`, and the time of it. -/
structure Save where
  state : PlanState
  now : Int
  deriving DecidableEq, Repr

/-- What is written. -/
def Save.written (x : Save) : PlanState := { x.state with updatedAt := x.now }

/-- The file operations of `save`. Writing the `.tmp` does not change whether
there is a `.json`. -/
def saveOps (dir : Checkpoints) (x : Save) : List (FileOp FileName (Option PlanState)) :=
  .write ⟨x.state.stem, .tmp⟩ (some x.written) x.now ::
    (if (dir.find ⟨x.state.stem, .json⟩).isSome then
      [.replace ⟨x.state.stem, .json⟩ ⟨x.state.stem, .bak⟩] else []) ++
    [.replace ⟨x.state.stem, .tmp⟩ ⟨x.state.stem, .json⟩]

/-- `save`, cut off behind so many file operations. -/
def saveUpTo (count : Nat) (dir : Checkpoints) (x : Save) : Option Checkpoints :=
  match pathFor x.state.sessionId x.state.planName with
  | .error _ => none
  | .ok _ => Dir.fileSystem.run dir ((saveOps dir x).take count)

def save (dir : Checkpoints) (x : Save) : Option Checkpoints :=
  saveUpTo (saveOps dir x).length dir x

/-! ## Loading -/

/-- A `.json`, or else its `.bak`. -/
def loadWithBackup (dir : Checkpoints) (stem : List Char) : Option PlanState :=
  (loadState dir ⟨stem, .json⟩).or (loadState dir ⟨stem, .bak⟩)

def load (dir : Checkpoints) (sessionId planName : List Char) :
    Except String (Option PlanState) := do
  return loadWithBackup dir (← pathFor sessionId planName)

/-- `_latest_path`, without the suffix, for a session id that is valid. -/
def latestStem (dir : Checkpoints) (sessionId : List Char) : Option (List Char) :=
  match Dir.newest (dir.glob (namedFor sessionId .json)) with
  | some file => some file.name.stem
  | none => (Dir.newest (dir.glob (namedFor sessionId .bak))).map (·.name.stem)

def loadLatest (dir : Checkpoints) (sessionId : List Char) :
    Except String (Option PlanState) := do
  validateFilePart sessionId "session_id"
  return (latestStem dir sessionId).bind (loadWithBackup dir)

/-- A `.json`, or a `.bak` without one. -/
def mainOrLone (dir : Checkpoints) (name : FileName) : Bool :=
  name.suffix == .json ||
    (name.suffix == .bak && (dir.find ⟨name.stem, .json⟩).isNone)

def findIncompleteByOwner (dir : Checkpoints) (ownerId : String) : List PlanState :=
  let paths := (dir.glob (mainOrLone dir)).insertionSort fun a b => a.name.text ≤ b.name.text
  (paths.filterMap fun path => loadState dir path.name).filter fun state =>
    state.ownerId == ownerId && !state.phase.isTerminal

/-! ## Removing -/

/-- `delete`, and whether it removed anything. -/
def delete (dir : Checkpoints) (sessionId planName : List Char) :
    Except String (Checkpoints × Bool) := do
  let stem ← pathFor sessionId planName
  let candidates : List FileName := [⟨stem, .json⟩, ⟨stem, .bak⟩, ⟨stem, .tmp⟩]
  return (candidates.foldl (fun dir name => dir.erase name) dir,
    candidates.any fun name => (dir.find name).isSome)

/-- The files that `cleanup` removes: all but the checkpoints of plans that
can still be resumed. -/
def obsolete (cutoff : Int) (file : File FileName (Option PlanState)) : Bool :=
  file.mtime < cutoff && (file.name.suffix == .tmp ||
    match file.content with
    | some state => state.phase.isTerminal
    | none => true)

/-- The files that `cleanup_stale` removes. -/
def stale (cutoff : Int) (file : File FileName (Option PlanState)) : Bool :=
  file.mtime < cutoff && file.name.suffix != .tmp &&
    match file.content with
    | some state => !state.phase.isTerminal
    | none => false

/-- Remove files, and count them. -/
def sweep (dir : Checkpoints) (p : File FileName (Option PlanState) → Bool) : Checkpoints × Nat :=
  (dir.keep fun file => !p file, dir.entries.countP p)

def secondsPerDay : Int := 86400

def cleanup (dir : Checkpoints) (now : Int) (maxAgeDays : Int := 7) : Checkpoints × Nat :=
  sweep dir (obsolete (now - maxAgeDays * secondsPerDay))

def cleanupStale (dir : Checkpoints) (now : Int) (maxStaleDays : Int := 30) : Checkpoints × Nat :=
  sweep dir (stale (now - maxStaleDays * secondsPerDay))

end NeuralHub.Plan
