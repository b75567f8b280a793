/-
NeuralHub.Plan.CheckpointTheorems — what a save does to the directory, and
the last of a list of saves.

`saveUpTo_cases`: a save that is cut off has changed no checkpoint yet, or
has moved the checkpoint aside to its `.bak` (`find_moved`), or is complete
(`find_save`). `lastSave saved p` is the last save of a kind; what is on
disk is later compared with it.
-/
import NeuralHub.Plan.Checkpoints

namespace NeuralHub.Plan

open NeuralHub.Lib

variable {dir dir' : Checkpoints} {x : Save} {count : Nat}

/-! ## One save -/

/-- The file that a save leaves behind. -/
def PlanState.file (state : PlanState) (suffix : Suffix) : File FileName (Option PlanState) where
  name := ⟨state.stem, suffix⟩
  content := some state
  mtime := state.updatedAt

@[simp] theorem Save.stem_written (x : Save) : x.written.stem = x.state.stem := rfl

@[simp] theorem Save.updatedAt_written (x : Save) : x.written.updatedAt = x.now := rfl

theorem run_of_saveUpTo (h : saveUpTo count dir x = some dir') :
    Dir.fileSystem.run dir ((saveOps dir x).take count) = some dir' := by
  unfold saveUpTo at h
  split at h
  · cases h
  · exact h

/-- Up to the writing of the `.tmp`, the checkpoints stay as they are. -/
theorem find_pending (h : saveUpTo count dir x = some dir') (hcount : count ≤ 1)
    {name : FileName} (hname : name.suffix ≠ .tmp) : dir'.find name = dir.find name := by
  have hrun := run_of_saveUpTo h
  rcases Nat.le_one_iff_eq_zero_or_eq_one.mp hcount with rfl | rfl
  · cases hrun
    rfl
  · rw [saveOps, List.cons_append, List.take_succ_cons, List.take_zero,
      Machine.run_singleton] at hrun
    rw [Dir.find_write hrun, if_neg]
    rintro rfl
    exact hname rfl

theorem length_saveOps (dir : Checkpoints) (x : Save) :
    (saveOps dir x).length = if (dir.find ⟨x.state.stem, .json⟩).isSome then 3 else 2 := by
  unfold saveOps
  split <;> rfl

/-- Between the two renamings there is a `.bak` only. -/
theorem find_moved (h : saveUpTo 2 dir x = some dir')
    (hmain : (dir.find ⟨x.state.stem, .json⟩).isSome = true) {name : FileName}
    (hname : name.suffix ≠ .tmp) :
    dir'.find name =
      if name = ⟨x.state.stem, .bak⟩ then
        (dir.find ⟨x.state.stem, .json⟩).map fun file =>
          { file with name := ⟨x.state.stem, .bak⟩ }
      else if name = ⟨x.state.stem, .json⟩ then none
      else dir.find name := by
  have hrun := run_of_saveUpTo h
  rw [saveOps, if_pos hmain] at hrun
  obtain ⟨written, hwritten, hrest⟩ := Dir.fileSystem.run_cons_eq_some.mp hrun
  have hreplace : Dir.fileSystem.step written
      (.replace ⟨x.state.stem, .json⟩ ⟨x.state.stem, .bak⟩) = some dir' := by
    rw [← Machine.run_singleton]
    exact hrest
  rw [Dir.find_replace hreplace, Dir.find_write hwritten, Dir.find_write hwritten]
  obtain ⟨stem, suffix⟩ := name
  cases suffix with
  | json => simp
  | bak => simp
  | tmp => exact absurd rfl hname

/-- A complete save has a `.json`; the `.bak` is the `.json` before it, if there was one. -/
theorem find_save (h : save dir x = some dir') (name : FileName) :
    dir'.find name =
      if name = ⟨x.state.stem, .json⟩ then some (x.written.file .json)
      else if name = ⟨x.state.stem, .tmp⟩ then none
      else if name = ⟨x.state.stem, .bak⟩ then
        ((dir.find ⟨x.state.stem, .json⟩).map fun file =>
          { file with name := ⟨x.state.stem, .bak⟩ }).or (dir.find name)
      else dir.find name := by
  have hrun := run_of_saveUpTo h
  rw [List.take_length] at hrun
  unfold saveOps at hrun
  obtain ⟨written, hwritten, hrest⟩ := Dir.fileSystem.run_cons_eq_some.mp hrun
  obtain ⟨moved, hmoved, hlast⟩ := Dir.fileSystem.run_snoc_eq_some.mp hrest
  rw [Dir.find_replace hlast]
  obtain ⟨stem, suffix⟩ := name
  split at hmoved
  · rename_i hmain
    rw [Machine.run_singleton] at hmoved
    simp only [Dir.find_replace hmoved, Dir.find_write hwritten]
    obtain ⟨file, hfile⟩ := Option.isSome_iff_exists.mp hmain
    by_cases hstem : stem = x.state.stem <;> cases suffix <;> simp [hstem, hfile, PlanState.file]
  · rename_i hmain
    cases hmoved
    rw [Option.not_isSome_iff_eq_none] at hmain
    simp only [Dir.find_write hwritten]
    by_cases hstem : stem = x.state.stem <;> cases suffix <;> simp [hstem, hmain, PlanState.file]

theorem save_of_saveUpTo (h : saveUpTo count dir x = some dir')
    (hcount : (saveOps dir x).length ≤ count) : save dir x = some dir' := by
  unfold save
  unfold saveUpTo at h ⊢
  rw [List.take_of_length_le hcount] at h
  rw [List.take_length]
  exact h

/-! ## The last of the saves -/

/-- The last of these saves that is of the kind `p`. -/
def lastSave (saved : List PlanState) (p : PlanState → Bool) : Option PlanState :=
  (saved.filter p).getLast?

variable {saved : List PlanState} {y z : PlanState} {p q : PlanState → Bool}

theorem lastSave_snoc (saved : List PlanState) (y : PlanState) (p : PlanState → Bool) :
    lastSave (saved ++ [y]) p = if p y then some y else lastSave saved p := by
  unfold lastSave
  rw [List.filter_append]
  split
  · rename_i hp
    simp [hp]
  · rename_i hp
    simp [hp]

theorem mem_of_lastSave (h : lastSave saved p = some y) : y ∈ saved ∧ p y = true :=
  List.mem_filter.mp (List.mem_of_getLast? h)

theorem lastSave_eq_none_iff : lastSave saved p = none ↔ ∀ y ∈ saved, p y = false := by
  simp [lastSave]

theorem lastSave_isSome (hy : y ∈ saved) (hp : p y = true) : ∃ z, lastSave saved p = some z := by
  rw [← Option.ne_none_iff_exists']
  intro hnone
  rw [lastSave_eq_none_iff.mp hnone y hy] at hp
  cases hp

/-- The last save of a wide kind is the last of every narrower kind that it is of. -/
theorem lastSave_of_imp (himp : ∀ y ∈ saved, q y = true → p y = true)
    (h : lastSave saved p = some y) (hq : q y = true) : lastSave saved q = some y := by
  unfold lastSave at h ⊢
  obtain ⟨before, hbefore⟩ := List.getLast?_eq_some_iff.mp h
  have hfilter : saved.filter q = (saved.filter p).filter q := by
    rw [List.filter_filter]
    refine List.filter_congr fun z hz => ?_
    rcases hqz : q z with _ | _
    · rfl
    · rw [himp z hz hqz, Bool.and_self]
  rw [hfilter, hbefore, List.filter_append]
  simp [hq]

/-- Where the saves come in the order of their times, the last one is the newest. -/
theorem lt_of_lastSave (htimes : saved.Pairwise fun y z => y.updatedAt < z.updatedAt)
    (h : lastSave saved p = some y) (hz : z ∈ saved) (hp : p z = true) (hne : z ≠ y) :
    z.updatedAt < y.updatedAt := by
  obtain ⟨before, hbefore⟩ := List.getLast?_eq_some_iff.mp h
  have hmem : z ∈ saved.filter p := List.mem_filter.mpr ⟨hz, hp⟩
  have hsorted := htimes.filter p
  rw [hbefore] at hmem hsorted
  rcases List.mem_append.mp hmem with hin | hin
  · exact (List.pairwise_append.mp hsorted).2.2 z hin y List.mem_cons_self
  · exact absurd (List.mem_singleton.mp hin) hne

end NeuralHub.Plan
