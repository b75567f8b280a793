/-
NeuralHub.Lib.Directory — one directory of files, and the operations that
programs build their crash safety from.

A file has a name, a content and the time it was written at. A directory
is a table of files by their name, so a name is that of one file. The
operations are a machine: `write` makes a file or writes it anew, `replace`
renames a file over whatever had the new name (and keeps its time),
`utime` sets its time. An operation that raises is disabled. A crash in
the middle of a program of operations is then a run of a prefix of it.

A listing (`glob`) comes in the order of the table. A file system promises
no order, so what is said about a listing is said about every directory
that is `Relisted`; a lookup cannot tell the two apart.
-/
import Mathlib.Data.List.MinMax
import NeuralHub.Lib.Machine
import NeuralHub.Lib.Table

namespace NeuralHub.Lib

universe u v

/-- A file of a directory. -/
structure File (ν : Type u) (γ : Type v) where
  name : ν
  content : γ
  mtime : Int
  deriving DecidableEq, Repr

/-- The files by name. -/
abbrev Dir (ν : Type u) (γ : Type v) := Table (File.name : File ν γ → ν)

/-- An operation on a directory. -/
inductive FileOp (ν : Type u) (γ : Type v)
  | write (name : ν) (content : γ) (now : Int)
  | replace (src dst : ν)
  | utime (name : ν) (mtime : Int)
  deriving DecidableEq, Repr

namespace Dir

variable {ν : Type u} {γ : Type v}

/-! ## Listings -/

/-- The files with a name of this kind. -/
def glob (dir : Dir ν γ) (p : ν → Bool) : List (File ν γ) :=
  dir.entries.filter fun file => p file.name

/-- The same files, listed in some other order. -/
def Relisted (dir listed : Dir ν γ) : Prop := dir.entries.Perm listed.entries

theorem Relisted.refl (dir : Dir ν γ) : Relisted dir dir := List.Perm.refl _

/-- The first of the files that were written last: `max` by `st_mtime`. The
order of the integers is named because not every instance of it can be
evaluated. -/
def newest (files : List (File ν γ)) : Option (File ν γ) :=
  @List.argmax _ _ Int.instLinearOrder.toPreorder Int.decLt File.mtime files

theorem newest_mem {files : List (File ν γ)} {file : File ν γ} (h : newest files = some file) :
    file ∈ files := List.argmax_mem h

theorem newest_eq_none_iff {files : List (File ν γ)} : newest files = none ↔ files = [] :=
  List.argmax_eq_none

/-- Where the times differ, the order of the files does not matter. -/
theorem newest_eq_some {files : List (File ν γ)} {file : File ν γ} (hmem : file ∈ files)
    (hlast : ∀ other ∈ files, other ≠ file → other.mtime < file.mtime) :
    newest files = some file := by
  rcases hnewest : newest files with _ | found
  · rw [newest_eq_none_iff.mp hnewest] at hmem
    cases hmem
  · have hle : file.mtime ≤ found.mtime := List.le_of_mem_argmax hmem hnewest
    by_contra hne
    have hlt := hlast found (newest_mem hnewest) fun h => hne (congrArg some h)
    omega

variable [DecidableEq ν] {dir dir' : Dir ν γ}

theorem mem_glob {p : ν → Bool} {file : File ν γ} :
    file ∈ glob dir p ↔ dir.find file.name = some file ∧ p file.name = true := by
  rw [glob, List.mem_filter, Table.find_eq_some_iff]
  simp

theorem Relisted.find {listed : Dir ν γ} (h : Relisted dir listed) (name : ν) :
    listed.find name = dir.find name := (Table.find_of_perm h name).symm

/-! ## Operations -/

/-- An operation on a file that is not there is disabled. -/
def fileSystem : Machine (Dir ν γ) (FileOp ν γ) where
  step dir
    | .write name content now => some (dir.put { name, content, mtime := now })
    | .replace src dst =>
        (dir.find src).map fun file => (dir.erase src).put { file with name := dst }
    | .utime name mtime => (dir.find name).map fun file => dir.put { file with mtime }

theorem find_write {name : ν} {content : γ} {now : Int}
    (h : fileSystem.step dir (.write name content now) = some dir') (other : ν) :
    dir'.find other =
      if other = name then some { name, content, mtime := now } else dir.find other := by
  cases h
  exact Table.find_put dir _ other

/-- A renamed file is found under its new name only. -/
theorem find_replace {src dst : ν} (h : fileSystem.step dir (.replace src dst) = some dir')
    (other : ν) :
    dir'.find other =
      if other = dst then (dir.find src).map fun file => { file with name := dst }
      else if other = src then none
      else dir.find other := by
  obtain ⟨file, hfile, rfl⟩ := Option.map_eq_some_iff.mp h
  rw [Table.find_put, Table.find_erase, hfile]
  rfl

theorem find_utime {name : ν} {mtime : Int}
    (h : fileSystem.step dir (.utime name mtime) = some dir') (other : ν) :
    dir'.find other =
      if other = name then (dir.find name).map fun file => { file with mtime }
      else dir.find other := by
  obtain ⟨file, hfile, rfl⟩ := Option.map_eq_some_iff.mp h
  obtain rfl : file.name = name := Table.key_of_find hfile
  rw [Table.find_put, hfile]
  rfl

end Dir

end NeuralHub.Lib
