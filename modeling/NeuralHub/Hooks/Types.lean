/-
NeuralHub.Hooks.Types — the state of an event hook and the verdict of a
scan: `event_hooks/models.py` and `HookVerdict` of `assess.py`.

All of this is about one hook, so its id is left out. A time of the hook's
own is the number of microseconds it stands for, and `none` for the empty
text; the time of a timeline entry comes from a model and is a text.
The numeric score of a verdict is left out: nothing here reads it.
-/
import Mathlib.Data.List.Basic

namespace NeuralHub.Hooks

inductive HookStatus
  | developing
  | stable
  | escalating
  | resolved
  deriving DecidableEq, Repr

structure TimelineEntry where
  ts : String
  text : String
  isNew : Bool := true
  source : String
  deriving DecidableEq, Repr

/-- What an entry says, whether or not it was seen: its text, time and source. -/
structure Content where
  text : String
  ts : String
  source : String
  deriving DecidableEq, Repr

def TimelineEntry.content (entry : TimelineEntry) : Content := ⟨entry.text, entry.ts, entry.source⟩

structure SourceHealth where
  source : String
  online : Bool := false
  lastOk : Option Int := none
  deriving DecidableEq, Repr

structure HookState where
  status : HookStatus := .developing
  summary : String := ""
  confidence : Int := 0
  timeline : List TimelineEntry := []
  unseenCount : Nat := 0
  sourceHealth : List SourceHealth := []
  lastScanned : Option Int := none
  lastPushedTs : Option Int := none
  /-- A push that was held back; the sweep makes up for it. -/
  pendingPush : Bool := false
  deriving DecidableEq, Repr

inductive Decision
  | push
  | soft
  | drop
  deriving DecidableEq, Repr

structure HookVerdict where
  turningScore : Int
  materiality : Int
  status : HookStatus
  decision : Decision
  summary : String
  newEntries : List TimelineEntry
  deriving DecidableEq, Repr

end NeuralHub.Hooks
