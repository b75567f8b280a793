/-
NeuralHub.Plan.CheckpointCleanup — whether a finished plan can come back.

The operations of a store are a machine here, with files that age between
them. The `.json` of a stem is the last save made on it as long as it is
there (`OnDisk`); what can bring a finished plan back is a `.bak` of an
earlier phase that outlives its `.json`. `cleanup_stale` does not remove a
`.json` in a terminal phase, and a save writes a new one. `cleanup` does
remove it and keeps the `.bak`, so a plan that was saved as executing and
then as completed is executing again once its `.json` is old enough.
`finished_stays_finished_iff` says that this is the only way.
-/
import NeuralHub.Plan.CheckpointTheorems

namespace NeuralHub.Plan

open NeuralHub.Lib

/-! ## A store in use -/

inductive StoreAction
  | save (x : Save)
  | load (sessionId planName : List Char)
  | loadLatest (sessionId : List Char)
  | findIncomplete (ownerId : String)
  | delete (sessionId planName : List Char)
  | cleanup (now maxAgeDays : Int)
  | cleanupStale (now maxStaleDays : Int)
  /-- The time of a file is set, to whatever it has come to be by now. -/
  | age (name : FileName) (mtime : Int)
  deriving DecidableEq, Repr

/-- An operation that raises leaves the run. -/
def store : Machine Checkpoints StoreAction where
  step dir
    | .save x => save dir x
    | .load sessionId planName => (load dir sessionId planName).toOption.map fun _ => dir
    | .loadLatest sessionId => (loadLatest dir sessionId).toOption.map fun _ => dir
    | .findIncomplete _ => some dir
    | .delete sessionId planName => (delete dir sessionId planName).toOption.map (·.1)
    | .cleanup now maxAgeDays => some (cleanup dir now maxAgeDays).1
    | .cleanupStale now maxStaleDays => some (cleanupStale dir now maxStaleDays).1
    | .age name mtime => Dir.fileSystem.step dir (.utime name mtime)

/-- The states that are saved in a run. -/
def savedBy (acts : List StoreAction) : List PlanState :=
  acts.filterMap fun
    | .save x => some x.written
    | _ => none

/-! ## The property -/

/-- The same plan of the same session. -/
def samePlan (y z : PlanState) : Bool := z.sessionId == y.sessionId && z.planName == y.planName

/-- A state that is offered for resumption: to its owner, or to its session. -/
def Offered (dir : Checkpoints) (y : PlanState) : Prop :=
  (∃ ownerId, y ∈ findIncompleteByOwner dir ownerId) ∨
    (loadLatest dir y.sessionId = .ok (some y) ∧ y.phase.isTerminal = false)

/-- No plan is offered whose last save is in a terminal phase, in whatever
order the directory is listed. -/
def NoComeback (dir : Checkpoints) (saved : List PlanState) : Prop :=
  ∀ listed, Dir.Relisted dir listed → ∀ y, Offered listed y →
    ∀ z, lastSave saved (samePlan y) = some z → z.phase.isTerminal = false

/-- The `.json` of a finished plan that `cleanup` removes while its `.bak`
has the plan in an earlier phase. -/
def strands (cutoff : Int) (dir : Checkpoints) (file : File FileName (Option PlanState)) : Bool :=
  obsolete cutoff file && file.name.suffix == .json &&
    match file.content, loadState dir ⟨file.name.stem, .bak⟩ with
    | some y, some z => samePlan y z && !z.phase.isTerminal
    | _, _ => false

/-- No `cleanup` strands a `.bak`. -/
def strandsNone (dir : Checkpoints) : StoreAction → Bool
  | .cleanup now maxAgeDays =>
      dir.entries.all fun file => !strands (now - maxAgeDays * secondsPerDay) dir file
  | _ => true

/-! ## What is on disk -/

/-- A `.json` is the last save on its stem. A `.bak` of an earlier phase of
a finished plan is together with the `.json` of that plan. -/
structure OnDisk (dir : Checkpoints) (saved : List PlanState) : Prop where
  main : ∀ stem file, dir.find ⟨stem, .json⟩ = some file →
    ∃ y, file.content = some y ∧ lastSave saved (·.stem == stem) = some y
  backup : ∀ stem y, loadState dir ⟨stem, .bak⟩ = some y → y.stem = stem
  together : ∀ stem y z, loadState dir ⟨stem, .bak⟩ = some y → y.phase.isTerminal = false →
    lastSave saved (samePlan y) = some z → z.phase.isTerminal = true →
      ∃ x, loadState dir ⟨stem, .json⟩ = some x ∧ samePlan y x = true

variable {dir dir' : Checkpoints} {saved : List PlanState} {x y z : PlanState}
  {stem : List Char} {a : StoreAction}

theorem onDisk_empty : OnDisk Table.empty [] where
  main stem file h := by cases h
  backup stem y h := by cases h
  together stem y z h := by cases h

theorem loadState_eq_some {name : FileName} (h : loadState dir name = some y) :
    ∃ file, dir.find name = some file ∧ file.content = some y :=
  Option.bind_eq_some_iff.mp h

theorem samePlan_refl (y : PlanState) : samePlan y y = true := by
  simp [samePlan]

theorem samePlan_comm (y z : PlanState) : samePlan y z = samePlan z y := by
  unfold samePlan
  rw [Bool.beq_comm, Bool.beq_comm (a := z.planName)]

theorem stem_of_samePlan (h : samePlan y z = true) : z.stem = y.stem := by
  rw [samePlan, Bool.and_eq_true, beq_iff_eq, beq_iff_eq] at h
  rw [PlanState.stem, h.1, h.2]
  rfl

theorem OnDisk.loadState_json (h : OnDisk dir saved) (hy : loadState dir ⟨stem, .json⟩ = some y) :
    lastSave saved (·.stem == stem) = some y := by
  obtain ⟨file, hfile, hcontent⟩ := loadState_eq_some hy
  obtain ⟨z, hz, hlast⟩ := h.main stem file hfile
  rw [← hcontent, hz]
  exact hlast

/-- The last save on a stem is the last save of its plan. -/
theorem lastSave_samePlan (hx : lastSave saved (·.stem == stem) = some x)
    (hsame : samePlan y x = true) : lastSave saved (samePlan y) = some x := by
  refine lastSave_of_imp (fun z _ hz => ?_) hx hsame
  have hstem : x.stem = stem := beq_iff_eq.mp (mem_of_lastSave hx).2
  rw [beq_iff_eq, stem_of_samePlan hz, ← stem_of_samePlan hsame, hstem]

/-! ## What is offered -/

/-- An unfinished checkpoint, or an unfinished backup without one, is that
of a plan that is not finished. -/
theorem OnDisk.live (h : OnDisk dir saved) (hy : y.phase.isTerminal = false)
    (hload : loadWithBackup dir stem = some y) (hz : lastSave saved (samePlan y) = some z) :
    z.phase.isTerminal = false := by
  rcases Option.or_eq_some_iff.mp hload with hmain | ⟨hnone, hbackup⟩
  · have hlast := lastSave_samePlan (h.loadState_json hmain) (samePlan_refl y)
    obtain rfl := Option.some.inj (hz.symm.trans hlast)
    exact hy
  · by_contra hterminal
    obtain ⟨x, hx, -⟩ := h.together stem y z hbackup hy hz (Bool.not_eq_false _ ▸ hterminal)
    rw [hnone] at hx
    cases hx

theorem mem_findIncompleteByOwner {ownerId : String} :
    y ∈ findIncompleteByOwner dir ownerId ↔
      (∃ name, mainOrLone dir name = true ∧ loadState dir name = some y) ∧
        y.ownerId = ownerId ∧ y.phase.isTerminal = false := by
  unfold findIncompleteByOwner
  rw [List.mem_filter, List.mem_filterMap, Bool.and_eq_true, beq_iff_eq, Bool.not_eq_true']
  refine and_congr_left fun _ => ?_
  constructor
  · rintro ⟨file, hfile, hload⟩
    rw [List.mem_insertionSort, Dir.mem_glob] at hfile
    exact ⟨file.name, hfile.2, hload⟩
  · rintro ⟨name, hname, hload⟩
    obtain ⟨file, hfile, -⟩ := loadState_eq_some hload
    obtain rfl : file.name = name := Table.key_of_find hfile
    exact ⟨file, (List.mem_insertionSort _).mpr (Dir.mem_glob.mpr ⟨hfile, hname⟩), hload⟩

/-- What is offered is a checkpoint, or a backup without one. -/
theorem Offered.load (h : Offered dir y) :
    y.phase.isTerminal = false ∧ ∃ stem, loadWithBackup dir stem = some y := by
  rcases h with ⟨ownerId, hmem⟩ | ⟨hload, hlive⟩
  · obtain ⟨⟨⟨stem, suffix⟩, hname, hload⟩, -, hlive⟩ := mem_findIncompleteByOwner.mp hmem
    refine ⟨hlive, stem, ?_⟩
    cases suffix with
    | json => rw [loadWithBackup, hload, Option.some_or]
    | bak =>
      have hnone : loadState dir ⟨stem, .json⟩ = none := by
        simp only [mainOrLone, beq_self_eq_true, Bool.true_and, Bool.or_eq_true,
          Option.isNone_iff_eq_none] at hname
        rw [loadState, hname.resolve_left (by decide), Option.bind_none]
      rw [loadWithBackup, hnone, Option.none_or, hload]
    | tmp => cases hname
  · refine ⟨hlive, ?_⟩
    unfold loadLatest at hload
    rcases hvalid : validateFilePart y.sessionId "session_id" with e | u
    · rw [hvalid] at hload
      cases hload
    · rw [hvalid] at hload
      obtain ⟨stem, -, hstem⟩ := Option.bind_eq_some_iff.mp (Except.ok.inj hload)
      exact ⟨stem, hstem⟩

theorem OnDisk.noComeback (h : OnDisk dir saved) : NoComeback dir saved := by
  intro listed hlisted y hoffered z hz
  obtain ⟨hlive, stem, hload⟩ := hoffered.load
  have heq : loadState listed = loadState dir := by
    funext name
    rw [loadState, loadState, hlisted.find]
  rw [loadWithBackup, heq] at hload
  exact h.live hlive hload hz

/-! ## Steps -/

/-- Nothing is new in `dir'`, and where a backup is left, so is the finished
checkpoint of its plan. -/
theorem OnDisk.of_kept (h : OnDisk dir saved)
    (hold : ∀ name file, dir'.find name = some file →
      ∃ old, dir.find name = some old ∧ file.content = old.content)
    (hkept : ∀ stem y z, loadState dir' ⟨stem, .bak⟩ = some y → y.phase.isTerminal = false →
      loadState dir ⟨stem, .json⟩ = some z → samePlan y z = true → z.phase.isTerminal = true →
        loadState dir' ⟨stem, .json⟩ = some z) : OnDisk dir' saved := by
  have hload : ∀ name y, loadState dir' name = some y → loadState dir name = some y := by
    intro name y hy
    obtain ⟨file, hfile, hcontent⟩ := loadState_eq_some hy
    obtain ⟨old, hfind, heq⟩ := hold name file hfile
    rw [loadState, hfind, Option.bind_some, ← heq, hcontent]
  refine ⟨fun stem file hfile => ?_, fun stem y hy => h.backup stem y (hload _ _ hy), ?_⟩
  · obtain ⟨old, hfind, heq⟩ := hold _ _ hfile
    rw [heq]
    exact h.main stem old hfind
  · intro stem y z hy hlive hz hterminal
    obtain ⟨x, hx, hsame⟩ := h.together stem y z (hload _ _ hy) hlive hz hterminal
    have hlast := lastSave_samePlan (h.loadState_json hx) hsame
    obtain rfl := Option.some.inj (hz.symm.trans hlast)
    exact ⟨z, hkept stem y z hy hlive hx hsame hterminal, hsame⟩

section Sweep

variable {p : File FileName (Option PlanState) → Bool} {name : FileName}
  {file : File FileName (Option PlanState)}

theorem find_sweep : (sweep dir p).1.find name = some file ↔
    dir.find name = some file ∧ p file = false := by
  rw [sweep, Table.find_keep_eq_some_iff, Bool.not_eq_true']

theorem find_sweep_eq_none (hfile : dir.find name = some file) (hp : p file = true) :
    (sweep dir p).1.find name = none := by
  by_contra hsome
  obtain ⟨left, hleft⟩ := Option.ne_none_iff_exists'.mp hsome
  obtain ⟨hfind, hkept⟩ := find_sweep.mp hleft
  obtain rfl := Option.some.inj (hfile.symm.trans hfind)
  rw [hp] at hkept
  cases hkept

theorem loadState_sweep (hfile : dir.find name = some file) (hp : p file = false) :
    loadState (sweep dir p).1 name = file.content := by
  rw [loadState, find_sweep.mpr ⟨hfile, hp⟩]
  rfl

theorem OnDisk.sweep (h : OnDisk dir saved)
    (hkept : ∀ stem file y z, loadState dir ⟨stem, .bak⟩ = some y → y.phase.isTerminal = false →
      dir.find ⟨stem, .json⟩ = some file → file.content = some z → samePlan y z = true →
        z.phase.isTerminal = true → p file = false) : OnDisk (sweep dir p).1 saved := by
  refine h.of_kept (fun name file hfile => ⟨file, (find_sweep.mp hfile).1, rfl⟩) ?_
  intro stem y z hy hlive hz hsame hterminal
  obtain ⟨backup, hbackup, hcontent⟩ := loadState_eq_some hy
  have hy' : loadState dir ⟨stem, .bak⟩ = some y := by
    rw [loadState, (find_sweep.mp hbackup).1]
    exact hcontent
  obtain ⟨file, hfile, hz'⟩ := loadState_eq_some hz
  have hp := hkept stem file y z hy' hlive hfile hz' hsame hterminal
  exact (loadState_sweep hfile hp).trans hz'

end Sweep

theorem OnDisk.cleanup {now maxAgeDays : Int} (h : OnDisk dir saved)
    (hnone : strandsNone dir (.cleanup now maxAgeDays) = true) :
    OnDisk (cleanup dir now maxAgeDays).1 saved := by
  refine h.sweep fun stem file y z hy hlive hfile hz hsame hterminal => ?_
  have hname : file.name = ⟨stem, .json⟩ := Table.key_of_find hfile
  have hno := List.all_eq_true.mp hnone file (Table.mem_of_find hfile)
  rw [strands, hname, hz, hy] at hno
  simpa [samePlan_comm z y, hsame, hlive] using hno

/-- A finished checkpoint is not stale. -/
theorem OnDisk.cleanupStale {now maxStaleDays : Int} (h : OnDisk dir saved) :
    OnDisk (cleanupStale dir now maxStaleDays).1 saved := by
  refine h.sweep fun stem file y z hy hlive hfile hz hsame hterminal => ?_
  simp [stale, hz, hterminal]

theorem OnDisk.age {name : FileName} {mtime : Int} (h : OnDisk dir saved)
    (hage : Dir.fileSystem.step dir (.utime name mtime) = some dir') : OnDisk dir' saved := by
  have hold : ∀ other file, dir'.find other = some file →
      ∃ old, dir.find other = some old ∧ file.content = old.content := by
    intro other file hfile
    rw [Dir.find_utime hage] at hfile
    split at hfile
    · rename_i heq
      obtain ⟨old, hfind, rfl⟩ := Option.map_eq_some_iff.mp hfile
      exact ⟨old, heq ▸ hfind, rfl⟩
    · exact ⟨file, hfile, rfl⟩
  refine h.of_kept hold fun stem y z hy hlive hz hsame hterminal => ?_
  obtain ⟨file, hfile, hcontent⟩ := loadState_eq_some hz
  rw [loadState, Dir.find_utime hage]
  split
  · rename_i heq
    rw [← heq, hfile]
    exact hcontent
  · rw [hfile]
    exact hcontent

theorem OnDisk.delete {sessionId planName : List Char} {removed : Bool} (h : OnDisk dir saved)
    (hdelete : delete dir sessionId planName = .ok (dir', removed)) : OnDisk dir' saved := by
  unfold Plan.delete at hdelete
  rcases hpath : pathFor sessionId planName with e | stem
  · rw [hpath] at hdelete
    cases hdelete
  · rw [hpath] at hdelete
    have hdir := (congrArg Prod.fst (Except.ok.inj hdelete)).symm
    dsimp only at hdir
    have hfind : ∀ name : FileName, dir'.find name =
        if name.stem = stem then none else dir.find name := by
      rintro ⟨other, suffix⟩
      rw [hdir]
      simp only [List.foldl_cons, List.foldl_nil, Table.find_erase, FileName.mk.injEq]
      by_cases hstem : other = stem
      · cases suffix <;> simp [hstem]
      · simp [hstem]
    refine h.of_kept (fun name file hfile => ?_) fun other y z hy hlive hz hsame hterminal => ?_
    · rw [hfind] at hfile
      split at hfile
      · cases hfile
      · exact ⟨file, hfile, rfl⟩
    · rw [loadState, hfind] at hy ⊢
      split at hy
      · cases hy
      · rename_i hstem
        rw [if_neg hstem]
        exact hz

theorem loadState_json_save {w : Save} (hsave : save dir w = some dir') (stem : List Char) :
    loadState dir' ⟨stem, .json⟩ =
      if stem = w.state.stem then some w.written else loadState dir ⟨stem, .json⟩ := by
  rw [loadState, find_save hsave]
  by_cases hstem : stem = w.state.stem
  · simp [hstem, PlanState.file]
  · simp [hstem, loadState]

/-- The backup is the checkpoint that was there before. -/
theorem loadState_bak_save {w : Save} (hsave : save dir w = some dir') (stem : List Char) :
    loadState dir' ⟨stem, .bak⟩ =
      if stem = w.state.stem ∧ (dir.find ⟨stem, .json⟩).isSome = true then
        loadState dir ⟨stem, .json⟩
      else loadState dir ⟨stem, .bak⟩ := by
  rw [loadState, find_save hsave]
  by_cases hstem : stem = w.state.stem
  · subst hstem
    rcases hmain : dir.find ⟨w.state.stem, .json⟩ with _ | file
    · simp [loadState]
    · simp [loadState, hmain]
  · simp [hstem, loadState]

theorem lastSave_samePlan_snoc (saved : List PlanState) (y w : PlanState) :
    lastSave (saved ++ [w]) (samePlan y) =
      if samePlan y w = true then some w else lastSave saved (samePlan y) :=
  lastSave_snoc saved w _

theorem OnDisk.save {w : Save} (h : OnDisk dir saved) (hsave : save dir w = some dir') :
    OnDisk dir' (saved ++ [w.written]) where
  main stem file hfile := by
    rw [find_save hsave] at hfile
    rw [lastSave_snoc]
    by_cases hstem : stem = w.state.stem
    · rw [hstem, if_pos rfl] at hfile
      rw [← Option.some.inj hfile]
      exact ⟨w.written, rfl, by simp [hstem]⟩
    · have hne : w.state.stem ≠ stem := fun heq => hstem heq.symm
      simp only [FileName.mk.injEq, hstem, false_and, if_false] at hfile
      simpa [hne] using h.main stem file hfile
  backup stem y hy := by
    rw [loadState_bak_save hsave] at hy
    split at hy
    · exact beq_iff_eq.mp (mem_of_lastSave (h.loadState_json hy)).2
    · exact h.backup stem y hy
  together stem y z hy hlive hz hterminal := by
    rw [loadState_bak_save hsave] at hy
    rw [loadState_json_save hsave]
    rw [lastSave_samePlan_snoc] at hz
    by_cases hsame : samePlan y w.written = true
    · -- the new checkpoint is that of the plan
      have hstem : stem = w.state.stem := by
        have hy' : y.stem = stem := by
          split at hy
          · exact beq_iff_eq.mp (mem_of_lastSave (h.loadState_json hy)).2
          · exact h.backup stem y hy
        rw [← hy', ← stem_of_samePlan hsame, Save.stem_written]
      exact ⟨w.written, if_pos hstem, hsame⟩
    · rw [if_neg hsame] at hz
      split at hy
      · -- the new backup was the last save of its plan
        have hlast := lastSave_samePlan (h.loadState_json hy) (samePlan_refl y)
        obtain rfl := Option.some.inj (hz.symm.trans hlast)
        rw [hlive] at hterminal
        cases hterminal
      · rename_i hold
        obtain ⟨x, hx, hxsame⟩ := h.together stem y z hy hlive hz hterminal
        obtain ⟨file, hfile, -⟩ := loadState_eq_some hx
        have hstem : stem ≠ w.state.stem := fun heq => hold ⟨heq, by rw [hfile]; rfl⟩
        exact ⟨x, by rw [if_neg hstem, hx], hxsame⟩

theorem OnDisk.step (h : OnDisk dir saved) (hnone : strandsNone dir a = true)
    (hstep : store.step dir a = some dir') : OnDisk dir' (saved ++ savedBy [a]) := by
  cases a with
  | save x => exact h.save hstep
  | load sessionId planName =>
    obtain ⟨-, -, rfl⟩ := Option.map_eq_some_iff.mp hstep
    simpa [savedBy] using h
  | loadLatest sessionId =>
    obtain ⟨-, -, rfl⟩ := Option.map_eq_some_iff.mp hstep
    simpa [savedBy] using h
  | findIncomplete ownerId =>
    cases hstep
    simpa [savedBy] using h
  | delete sessionId planName =>
    rcases hdelete : Plan.delete dir sessionId planName with e | ⟨left, removed⟩
    · simp [store, hdelete, Except.toOption] at hstep
    · obtain rfl : left = dir' := by
        simpa [store, hdelete, Except.toOption] using hstep
      simpa [savedBy] using h.delete hdelete
  | cleanup now maxAgeDays =>
    cases hstep
    simpa [savedBy] using h.cleanup hnone
  | cleanupStale now maxStaleDays =>
    cases hstep
    simpa [savedBy] using h.cleanupStale
  | age name mtime => simpa [savedBy] using h.age hstep

/-! ## Runs -/

variable {acts : List StoreAction}

theorem savedBy_cons (a : StoreAction) (acts : List StoreAction) :
    savedBy (a :: acts) = savedBy [a] ++ savedBy acts := by
  rw [savedBy, savedBy, savedBy, ← List.filterMap_append]
  rfl

theorem OnDisk.run (h : OnDisk dir saved)
    (hm : store.Meets (fun dir a => strandsNone dir a = true) dir acts)
    (hrun : store.run dir acts = some dir') : OnDisk dir' (saved ++ savedBy acts) := by
  induction acts generalizing dir saved with
  | nil =>
    cases hrun
    simpa [savedBy] using h
  | cons a acts ih =>
    obtain ⟨next, hstep, hrest⟩ := store.run_cons_eq_some.mp hrun
    rw [savedBy_cons, ← List.append_assoc]
    exact ih (h.step hm.1 hstep) (hm.2 next hstep) hrest

/-- What `strands` asks for. -/
theorem strands_cases {cutoff : Int} {file : File FileName (Option PlanState)}
    (h : strands cutoff dir file = true) :
    obsolete cutoff file = true ∧ file.name = ⟨file.name.stem, .json⟩ ∧
      ∃ y z, file.content = some y ∧ loadState dir ⟨file.name.stem, .bak⟩ = some z ∧
        samePlan y z = true ∧ z.phase.isTerminal = false := by
  rw [strands, Bool.and_eq_true, Bool.and_eq_true, beq_iff_eq] at h
  obtain ⟨⟨hobsolete, hsuffix⟩, hmatch⟩ := h
  refine ⟨hobsolete, by rw [← hsuffix], ?_⟩
  split at hmatch
  · rename_i y z hy hz
    rw [Bool.and_eq_true, Bool.not_eq_true'] at hmatch
    exact ⟨y, z, hy, hz, hmatch.1, hmatch.2⟩
  · cases hmatch

/-- What a `cleanup` strands is offered to its owner, and is that of a finished plan. -/
theorem OnDisk.stranded {cutoff : Int} {file : File FileName (Option PlanState)}
    (h : OnDisk dir saved) (hmem : file ∈ dir.entries) (hstrands : strands cutoff dir file = true) :
    ∃ y z, lastSave saved (samePlan z) = some y ∧ y.phase.isTerminal = true ∧
      Offered (Plan.sweep dir (obsolete cutoff)).1 z := by
  obtain ⟨hobsolete, hname, y, z, hy, hz, hsame, hlive⟩ := strands_cases hstrands
  have hfile : dir.find ⟨file.name.stem, .json⟩ = some file := hname ▸ Table.find_of_mem hmem
  refine ⟨y, z, ?_, ?_, Or.inl ⟨z.ownerId, ?_⟩⟩
  · obtain ⟨x, hx, hlast⟩ := h.main _ _ hfile
    obtain rfl := Option.some.inj (hy.symm.trans hx)
    exact lastSave_samePlan hlast (by rw [samePlan_comm]; exact hsame)
  · rw [obsolete, hname, hy, Bool.and_eq_true] at hobsolete
    simpa using hobsolete.2
  · -- the checkpoint is removed, the backup is not
    have hmain := find_sweep_eq_none hfile hobsolete
    have hbackup : loadState (Plan.sweep dir (obsolete cutoff)).1 ⟨file.name.stem, .bak⟩ =
        some z := by
      obtain ⟨backup, hfind, hcontent⟩ := loadState_eq_some hz
      have hbak : backup.name = ⟨file.name.stem, .bak⟩ := Table.key_of_find hfind
      refine (loadState_sweep hfind ?_).trans hcontent
      simp [obsolete, hbak, hcontent, hlive]
    refine mem_findIncompleteByOwner.mpr ⟨⟨_, ?_, hbackup⟩, rfl, hlive⟩
    rw [mainOrLone, hmain]
    rfl

theorem OnDisk.comeback (h : OnDisk dir saved) (hsome : strandsNone dir a = false)
    (hstep : store.step dir a = some dir') : ¬ NoComeback dir' (saved ++ savedBy [a]) := by
  unfold strandsNone at hsome
  split at hsome
  · rw [List.all_eq_false] at hsome
    obtain ⟨file, hmem, hstrands⟩ := hsome
    rw [Bool.not_eq_true, Bool.not_eq_false'] at hstrands
    obtain ⟨y, z, hlast, hterminal, hoffered⟩ := h.stranded hmem hstrands
    cases hstep
    intro hno
    have hlive := hno _ (.refl _) z hoffered y (by simpa [savedBy] using hlast)
    rw [hterminal] at hlive
    cases hlive
  · cases hsome

/-- After every step of the run no finished plan is offered. -/
def NeverBack (acts : List StoreAction) : Prop :=
  ∀ pre post dir, acts = pre ++ post → store.run Table.empty pre = some dir →
    NoComeback dir (savedBy pre)

theorem OnDisk.meets (h : OnDisk dir saved) (hrun : store.run dir acts = some dir')
    (hnever : ∀ pre post u, acts = pre ++ post → store.run dir pre = some u →
      NoComeback u (saved ++ savedBy pre)) :
    store.Meets (fun dir a => strandsNone dir a = true) dir acts := by
  induction acts generalizing dir saved with
  | nil => trivial
  | cons a acts ih =>
    obtain ⟨next, hstep, hrest⟩ := store.run_cons_eq_some.mp hrun
    have hnone : strandsNone dir a = true := by
      by_contra hsome
      refine h.comeback (Bool.not_eq_true _ ▸ hsome) hstep ?_
      exact hnever [a] acts next rfl ((store.run_singleton dir a).trans hstep)
    refine ⟨hnone, fun u hu => ?_⟩
    obtain rfl : next = u := Option.some.inj (hstep.symm.trans hu)
    refine ih (h.step hnone hstep) hrest fun pre post v hacts hv => ?_
    rw [List.append_assoc, ← savedBy_cons]
    refine hnever (a :: pre) post v (by rw [hacts, List.cons_append]) ?_
    exact store.run_cons_eq_some.mpr ⟨next, hstep, hv⟩

/-- **A finished plan does not come back** exactly when no `cleanup` removes
its checkpoint and keeps a backup in an earlier phase. -/
theorem finished_stays_finished_iff (hrun : store.run Table.empty acts = some dir) :
    NeverBack acts ↔ store.Meets (fun dir a => strandsNone dir a = true) Table.empty acts := by
  constructor
  · exact fun hnever => onDisk_empty.meets hrun hnever
  · rintro hm pre post u rfl hu
    have hmpre := (store.meets_append.mp hm).1
    exact (onDisk_empty.run hmpre hu).noComeback

/-! ## A week after the end of a plan -/

def savedAs (phase : PlanPhase) (now : Int) : StoreAction :=
  .save { state := { planName := ['a'], sessionId := ['s'], phase }, now }

/-- Both passes six days after the end, and a stale backup a month later. -/
def keptInTime : List StoreAction :=
  [savedAs .executing 0, savedAs .completed 1, .cleanup (6 * secondsPerDay) 7,
    .cleanupStale (40 * secondsPerDay) 30, .cleanup (40 * secondsPerDay) 7]

theorem keptInTime_never_back : NeverBack keptInTime := by
  have hruns : (store.run Table.empty keptInTime).isSome = true := by decide
  obtain ⟨dir, hrun⟩ := Option.isSome_iff_exists.mp hruns
  exact (finished_stays_finished_iff hrun).mpr (by decide)

/-- After a week `cleanup` removes the checkpoint of a completed plan and
keeps its backup, which is executing. -/
theorem completed_plan_comes_back :
    ¬ ∀ (acts : List StoreAction) (dir : Checkpoints),
      store.run Table.empty acts = some dir → NeverBack acts := by
  intro hclaim
  have hruns : (store.run Table.empty [savedAs .executing 0, savedAs .completed 1,
      .cleanup (8 * secondsPerDay) 7]).isSome = true := by decide
  obtain ⟨dir, hrun⟩ := Option.isSome_iff_exists.mp hruns
  have hnever := hclaim _ dir hrun
  have hmeets := onDisk_empty.meets hrun fun pre post u hacts hu => hnever pre post u hacts hu
  exact absurd hmeets (by decide)

end NeuralHub.Plan
