/-
NeuralHub.Plan.CheckpointResume — which plan a session finds after a crash.

The saves of any sessions and plans come one after the other, and a crash
may cut the last one off behind any of its file operations. `Reflects`
says what is on disk then: every stem has the last save made on it, and
at most one stem has it as a `.bak` only. What `load_latest` returns is
read off that (`loadLatest_eq`): the last save whose name begins with the
id of the session, where a checkpoint that is moved aside does not count
as long as there is any other.

Two things can go wrong with that. The session `a` also finds the plans of
`a-b`; and a plan that was moved aside by the save that was cut off gives way to
an older plan of the session. `resumes_last_iff` says that there is
nothing else.
-/
import NeuralHub.Plan.CheckpointTheorems

namespace NeuralHub.Plan

open NeuralHub.Lib

/-! ## A sequence of saves that a crash ends -/

def saveAll (dir : Checkpoints) (saves : List Save) : Option Checkpoints := saves.foldlM save dir

/-- The save that is cut off, and behind how many of its file operations. -/
abbrev Cut := Option (Save × Nat)

def interrupted (dir : Checkpoints) : Cut → Option Checkpoints
  | none => some dir
  | some (x, count) => saveUpTo count dir x

/-- The save that is cut off, if it was complete by then. -/
def finished (dir : Checkpoints) : Cut → List PlanState
  | none => []
  | some (x, count) => if (saveOps dir x).length ≤ count then [x.written] else []

/-- The plan whose checkpoint is a `.bak` only. -/
def movedAside (dir : Checkpoints) : Cut → Option (List Char)
  | none => none
  | some (x, count) =>
      if count = 2 ∧ count < (saveOps dir x).length then some x.state.stem else none

/-- A sequence of saves into an empty directory. They are at `dir` before
the last one; `listed` is what is found after the crash. -/
structure Crashed (done : List Save) (cut : Cut) (dir listed : Checkpoints) : Prop where
  saves : saveAll Table.empty done = some dir
  times : (done ++ (cut.map (·.1)).toList).Pairwise fun x y => x.now < y.now
  stopped : ∃ left, interrupted dir cut = some left ∧ Dir.Relisted left listed

def completed (done : List Save) (dir : Checkpoints) (cut : Cut) : List PlanState :=
  done.map (·.written) ++ finished dir cut

/-! ## What is on disk -/

/-- Every stem has the last save made on it; only that of `moved` has it as a `.bak`. -/
structure Reflects (dir : Checkpoints) (saved : List PlanState) (moved : Option (List Char)) :
    Prop where
  main : ∀ stem, dir.find ⟨stem, .json⟩ =
    if moved = some stem then none else (lastSave saved (·.stem == stem)).map (·.file .json)
  backup : ∀ stem, moved = some stem →
    dir.find ⟨stem, .bak⟩ = (lastSave saved (·.stem == stem)).map (·.file .bak)
  lone : ∀ stem, (dir.find ⟨stem, .bak⟩).isSome = true →
    moved = some stem ∨ (dir.find ⟨stem, .json⟩).isSome = true

variable {dir dir' listed : Checkpoints} {saved : List PlanState} {moved : Option (List Char)}
  {x : Save} {count : Nat} {s : List Char}

theorem reflects_empty : Reflects Table.empty [] none where
  main _ := rfl
  backup _ h := by cases h
  lone _ h := by cases h

/-- A lookup does not depend on the order of a listing. -/
theorem Reflects.of_find (h : Reflects dir saved moved)
    (hfind : ∀ name : FileName, name.suffix ≠ .tmp → dir'.find name = dir.find name) :
    Reflects dir' saved moved where
  main stem := (hfind _ (by simp)).trans (h.main stem)
  backup stem hstem := (hfind _ (by simp)).trans (h.backup stem hstem)
  lone stem hbak := by
    rw [hfind _ (by simp)] at hbak ⊢
    exact h.lone stem hbak

theorem Reflects.find_main (h : Reflects dir saved none) (stem : List Char) :
    dir.find ⟨stem, .json⟩ = (lastSave saved (·.stem == stem)).map (·.file .json) :=
  (h.main stem).trans (if_neg (by simp))

theorem Reflects.save (h : Reflects dir saved none) (hsave : save dir x = some dir') :
    Reflects dir' (saved ++ [x.written]) none where
  main stem := by
    rw [find_save hsave, lastSave_snoc]
    by_cases hstem : stem = x.state.stem
    · simp [hstem]
    · have hne : x.state.stem ≠ stem := fun heq => hstem heq.symm
      simp [hstem, hne, h.find_main]
  backup stem hstem := by cases hstem
  lone stem hbak := by
    rw [find_save hsave] at hbak ⊢
    by_cases hstem : stem = x.state.stem
    · simp [hstem]
    · simp only [FileName.mk.injEq, hstem, false_and, if_false] at hbak ⊢
      exact h.lone stem hbak

theorem Reflects.moveAside (h : Reflects dir saved none)
    (hmain : (dir.find ⟨x.state.stem, .json⟩).isSome = true)
    (hsave : saveUpTo 2 dir x = some dir') : Reflects dir' saved (some x.state.stem) where
  main stem := by
    rw [find_moved hsave hmain (by simp)]
    by_cases hstem : stem = x.state.stem
    · simp [hstem]
    · have hne : x.state.stem ≠ stem := fun heq => hstem heq.symm
      simp [hstem, hne, h.find_main]
  backup stem hstem := by
    obtain rfl := Option.some.inj hstem
    rw [find_moved hsave hmain (by simp), if_pos rfl, h.find_main, Option.map_map]
    refine Option.map_congr fun y hy => ?_
    have hkind := (mem_of_lastSave hy).2
    simp only [beq_iff_eq] at hkind
    simp [PlanState.file, hkind]
  lone stem hbak := by
    by_cases hstem : stem = x.state.stem
    · exact Or.inl (congrArg some hstem.symm)
    · rw [find_moved hsave hmain (by simp)] at hbak ⊢
      simp only [FileName.mk.injEq, hstem, false_and, if_false] at hbak ⊢
      exact Or.inr ((h.lone stem hbak).resolve_left (by simp))

theorem Reflects.saveAll {saves : List Save} (h : Reflects dir saved none)
    (hsaves : saveAll dir saves = some dir') :
    Reflects dir' (saved ++ saves.map (·.written)) none := by
  induction saves generalizing dir saved with
  | nil =>
    cases hsaves
    simpa using h
  | cons x saves ih =>
    obtain ⟨next, hsave, hrest⟩ := Option.bind_eq_some_iff.mp hsaves
    simpa using ih (h.save hsave) hrest

theorem Reflects.interrupted {cut : Cut} (h : Reflects dir saved none)
    (hcut : interrupted dir cut = some dir') :
    Reflects dir' (saved ++ finished dir cut) (movedAside dir cut) := by
  unfold finished movedAside
  rcases cut with _ | ⟨x, count⟩
  · cases hcut
    simpa using h
  · change saveUpTo count dir x = some dir' at hcut
    dsimp only
    by_cases hall : (saveOps dir x).length ≤ count
    · rw [if_pos hall, if_neg (by omega)]
      exact h.save (save_of_saveUpTo hcut hall)
    · rw [if_neg hall, List.append_nil]
      have hlength := length_saveOps dir x
      split at hlength
      · rename_i hmain
        by_cases htwo : count = 2
        · subst htwo
          rw [if_pos ⟨rfl, by omega⟩]
          exact h.moveAside hmain hcut
        · rw [if_neg (by omega)]
          exact h.of_find fun name hname => find_pending hcut (by omega) hname
      · rw [if_neg (by omega)]
        exact h.of_find fun name hname => find_pending hcut (by omega) hname

/-! ## What a session finds -/

def ofSession (s : List Char) (y : PlanState) : Bool := y.sessionId == s

/-- The name of its file begins with `{s}-`. -/
def foundFor (s : List Char) (y : PlanState) : Bool := (s ++ ['-']).isPrefixOf y.stem

/-- A save that is found and whose checkpoint is not moved aside. -/
def inPlaceFor (s : List Char) (moved : Option (List Char)) (y : PlanState) : Bool :=
  foundFor s y && some y.stem != moved

/-- The saves of a session are found for it. -/
theorem foundFor_of_ofSession {y : PlanState} (h : ofSession s y = true) :
    foundFor s y = true := by
  rw [ofSession, beq_iff_eq] at h
  rw [foundFor, List.isPrefixOf_iff_prefix, PlanState.stem, stemOf, h]
  exact ⟨y.planName, by simp⟩

variable {y : PlanState} {file : File FileName (Option PlanState)} {p : PlanState → Bool}

theorem namedFor_file {suffix : Suffix} : namedFor s suffix (y.file suffix).name = foundFor s y := by
  simp [namedFor, foundFor, PlanState.file]

/-- The checkpoints that are listed for a session. -/
theorem Reflects.mem_glob_json (h : Reflects dir saved moved) :
    file ∈ dir.glob (namedFor s .json) ↔
      ∃ y, lastSave saved (·.stem == y.stem) = some y ∧ inPlaceFor s moved y = true ∧
        file = y.file .json := by
  rw [Dir.mem_glob]
  constructor
  · rintro ⟨hfind, hnamed⟩
    have hsuffix : file.name = ⟨file.name.stem, .json⟩ := by
      rw [namedFor, Bool.and_eq_true, beq_iff_eq] at hnamed
      rw [← hnamed.1]
    rw [hsuffix, h.main] at hfind
    split at hfind
    · cases hfind
    · rename_i hmoved
      obtain ⟨y, hy, hfile⟩ := Option.map_eq_some_iff.mp hfind
      have hstem : y.stem = file.name.stem := beq_iff_eq.mp (mem_of_lastSave hy).2
      rw [← hfile, namedFor_file] at hnamed
      rw [← hstem] at hy hmoved
      refine ⟨y, hy, ?_, hfile.symm⟩
      rw [inPlaceFor, hnamed, Bool.true_and, bne_iff_ne]
      exact fun heq => hmoved heq.symm
  · rintro ⟨y, hy, hplace, rfl⟩
    rw [inPlaceFor, Bool.and_eq_true, bne_iff_ne] at hplace
    refine ⟨?_, namedFor_file.trans hplace.1⟩
    change dir.find ⟨y.stem, .json⟩ = _
    rw [h.main, if_neg fun heq => hplace.2 heq.symm, hy]
    rfl

/-- Where no checkpoint is in place, only the plan that is moved aside is found. -/
theorem Reflects.of_mem_glob_bak (h : Reflects dir saved moved)
    (hplace : lastSave saved (inPlaceFor s moved) = none)
    (hfile : file ∈ dir.glob (namedFor s .bak)) :
    ∃ y, moved = some y.stem ∧ lastSave saved (·.stem == y.stem) = some y ∧
      foundFor s y = true ∧ file = y.file .bak := by
  obtain ⟨hfind, hnamed⟩ := Dir.mem_glob.mp hfile
  have hsuffix : file.name = ⟨file.name.stem, .bak⟩ := by
    rw [namedFor, Bool.and_eq_true, beq_iff_eq] at hnamed
    rw [← hnamed.1]
  rw [hsuffix] at hfind
  have hmoved : moved = some file.name.stem := by
    refine (h.lone _ (by rw [hfind]; rfl)).resolve_right fun hmain => ?_
    -- a checkpoint of that name would be in place
    obtain ⟨main, hmain⟩ := Option.isSome_iff_exists.mp hmain
    have hname : main.name = ⟨file.name.stem, .json⟩ := Table.key_of_find hmain
    have hlisted : main ∈ dir.glob (namedFor s .json) := by
      rw [Dir.mem_glob, hname]
      refine ⟨hmain, ?_⟩
      rw [namedFor, Bool.and_eq_true] at hnamed ⊢
      exact ⟨beq_self_eq_true _, hnamed.2⟩
    obtain ⟨y, hy, hin, -⟩ := h.mem_glob_json.mp hlisted
    rw [lastSave_eq_none_iff.mp hplace y (mem_of_lastSave hy).1] at hin
    cases hin
  rw [h.backup _ hmoved] at hfind
  obtain ⟨y, hy, hfile⟩ := Option.map_eq_some_iff.mp hfind
  have hstem : y.stem = file.name.stem := beq_iff_eq.mp (mem_of_lastSave hy).2
  rw [← hfile, namedFor_file] at hnamed
  rw [← hstem] at hmoved hy
  exact ⟨y, hmoved, hy, hnamed, hfile.symm⟩

theorem newest_eq_file {files : List (File FileName (Option PlanState))} {suffix : Suffix}
    (htimes : saved.Pairwise fun y z => y.updatedAt < z.updatedAt)
    (hlast : lastSave saved p = some y) (hmem : y.file suffix ∈ files)
    (hfiles : ∀ file ∈ files, ∃ z ∈ saved, p z = true ∧ file = z.file suffix) :
    Dir.newest files = some (y.file suffix) := by
  refine Dir.newest_eq_some hmem fun other hother hne => ?_
  obtain ⟨z, hz, hp, rfl⟩ := hfiles other hother
  exact lt_of_lastSave htimes hlast hz hp fun heq => hne (by rw [heq])

/-- The backup is read where the checkpoint is moved aside. -/
theorem Reflects.loadWithBackup (h : Reflects dir saved moved)
    (hy : lastSave saved (·.stem == y.stem) = some y) : loadWithBackup dir y.stem = some y := by
  rw [Plan.loadWithBackup, loadState, loadState, h.main, hy]
  by_cases hmoved : moved = some y.stem
  · rw [if_pos hmoved, h.backup _ hmoved, hy]
    rfl
  · rw [if_neg hmoved]
    rfl

theorem lastSave_stem (hy : lastSave saved p = some y)
    (hp : ∀ z : PlanState, z.stem = y.stem → p z = p y) :
    lastSave saved (·.stem == y.stem) = some y := by
  refine lastSave_of_imp (fun z _ hz => ?_) hy (beq_self_eq_true _)
  rw [hp z (beq_iff_eq.mp hz)]
  exact (mem_of_lastSave hy).2

theorem Reflects.latestStem_of_inPlace (h : Reflects dir saved moved)
    (htimes : saved.Pairwise fun y z => y.updatedAt < z.updatedAt)
    (hy : lastSave saved (inPlaceFor s moved) = some y)
    (hstem : lastSave saved (·.stem == y.stem) = some y) : latestStem dir s = some y.stem := by
  have hmem : y.file .json ∈ dir.glob (namedFor s .json) :=
    h.mem_glob_json.mpr ⟨y, hstem, (mem_of_lastSave hy).2, rfl⟩
  have hnewest : Dir.newest (dir.glob (namedFor s .json)) = some (y.file .json) := by
    refine newest_eq_file htimes hy hmem fun file hfile => ?_
    obtain ⟨z, hz, hin, heq⟩ := h.mem_glob_json.mp hfile
    exact ⟨z, (mem_of_lastSave hz).1, hin, heq⟩
  rw [latestStem, hnewest]
  rfl

/-- Where no checkpoint is in place, the backups are listed. -/
theorem Reflects.latestStem_of_moved (h : Reflects dir saved moved)
    (hplace : lastSave saved (inPlaceFor s moved) = none) :
    latestStem dir s = (Dir.newest (dir.glob (namedFor s .bak))).map (·.name.stem) := by
  have hnone : Dir.newest (dir.glob (namedFor s .json)) = none := by
    rw [Dir.newest_eq_none_iff, List.eq_nil_iff_forall_not_mem]
    intro file hfile
    obtain ⟨y, hy, hin, -⟩ := h.mem_glob_json.mp hfile
    rw [lastSave_eq_none_iff.mp hplace y (mem_of_lastSave hy).1] at hin
    cases hin
  rw [latestStem, hnone]

/-- **What a session finds**: the last save found for it that is in place,
and if there is none, the one that is moved aside. -/
theorem Reflects.latest (h : Reflects dir saved moved)
    (htimes : saved.Pairwise fun y z => y.updatedAt < z.updatedAt) :
    (latestStem dir s).bind (Plan.loadWithBackup dir) =
      (lastSave saved (inPlaceFor s moved)).or (lastSave saved (foundFor s)) := by
  rcases hplace : lastSave saved (inPlaceFor s moved) with _ | y
  · rw [h.latestStem_of_moved hplace]
    rcases hfound : lastSave saved (foundFor s) with _ | y
    · have hnone : Dir.newest (dir.glob (namedFor s .bak)) = none := by
        rw [Dir.newest_eq_none_iff, List.eq_nil_iff_forall_not_mem]
        intro file hfile
        obtain ⟨y, -, hy, hnamed, -⟩ := h.of_mem_glob_bak hplace hfile
        rw [lastSave_eq_none_iff.mp hfound y (mem_of_lastSave hy).1] at hnamed
        cases hnamed
      rw [hnone]
      rfl
    · obtain ⟨hmem, hnamed⟩ := mem_of_lastSave hfound
      have hstem := lastSave_stem hfound fun z hz => by rw [foundFor, foundFor, hz]
      have hmoved : moved = some y.stem := by
        have hin := lastSave_eq_none_iff.mp hplace y hmem
        rw [inPlaceFor, hnamed, Bool.true_and, bne_eq_false_iff_eq] at hin
        exact hin.symm
      have hbackup : y.file .bak ∈ dir.glob (namedFor s .bak) := by
        refine Dir.mem_glob.mpr ⟨?_, namedFor_file.trans hnamed⟩
        exact (h.backup _ hmoved).trans (by rw [hstem]; rfl)
      have hnewest : Dir.newest (dir.glob (namedFor s .bak)) = some (y.file .bak) := by
        refine newest_eq_file htimes hfound hbackup fun file hfile => ?_
        obtain ⟨z, -, hz, hfor, heq⟩ := h.of_mem_glob_bak hplace hfile
        exact ⟨z, (mem_of_lastSave hz).1, hfor, heq⟩
      rw [hnewest]
      exact h.loadWithBackup hstem
  · have hstem := lastSave_stem hplace fun z hz => by
      rw [inPlaceFor, inPlaceFor, foundFor, foundFor, hz]
    rw [h.latestStem_of_inPlace htimes hplace hstem]
    exact h.loadWithBackup hstem

/-! ## After a crash -/

variable {done : List Save} {cut : Cut}

theorem Crashed.pairwise (h : Crashed done cut dir listed) :
    (completed done dir cut).Pairwise fun y z => y.updatedAt < z.updatedAt := by
  have hfinished : (finished dir cut).Sublist ((cut.map (·.1)).toList.map (·.written)) := by
    unfold finished
    rcases cut with _ | ⟨x, count⟩
    · exact List.Sublist.refl _
    · dsimp only
      split
      · exact List.Sublist.refl _
      · exact List.nil_sublist _
  have hall : ((done ++ (cut.map (·.1)).toList).map (·.written)).Pairwise
      fun y z => y.updatedAt < z.updatedAt := List.pairwise_map.mpr h.times
  rw [List.map_append] at hall
  exact hall.sublist (hfinished.append_left _)

theorem Crashed.reflects (h : Crashed done cut dir listed) :
    Reflects listed (completed done dir cut) (movedAside dir cut) := by
  obtain ⟨left, hleft, hlisted⟩ := h.stopped
  have hdir := reflects_empty.saveAll h.saves
  exact (hdir.interrupted hleft).of_find fun name _ => hlisted.find name

theorem Crashed.loadLatest (h : Crashed done cut dir listed)
    (hs : validateFilePart s "session_id" = .ok ()) :
    loadLatest listed s =
      .ok ((lastSave (completed done dir cut) (inPlaceFor s (movedAside dir cut))).or
        (lastSave (completed done dir cut) (foundFor s))) := by
  rw [← h.reflects.latest h.pairwise, Plan.loadLatest, hs]
  rfl

/-- `load_latest` returns the last complete save of the session (which is the
second-last one if the last one was cut off), or the one that was cut off. -/
def ResumesLast (done : List Save) (cut : Cut) (dir : Checkpoints) (s : List Char)
    (result : Except String (Option PlanState)) : Prop :=
  result = .ok (lastSave (completed done dir cut) (ofSession s)) ∨
    ∃ x count, cut = some (x, count) ∧ x.state.sessionId = s ∧ result = .ok (some x.written)

/-- Of the checkpoints that are in place and found for the session, the
newest is its own, and its last save is in place; where none is in place,
the newest that is found is its own. -/
def NewestIsOwn (saved : List PlanState) (moved : Option (List Char)) (s : List Char) : Prop :=
  match lastSave saved (inPlaceFor s moved) with
  | some y => y.sessionId = s ∧ ∀ z ∈ lastSave saved (ofSession s), some z.stem ≠ moved
  | none => ∀ y ∈ lastSave saved (foundFor s), y.sessionId = s

theorem newestIsOwn_iff :
    NewestIsOwn saved moved s ↔
      (lastSave saved (inPlaceFor s moved)).or (lastSave saved (foundFor s)) =
        lastSave saved (ofSession s) := by
  unfold NewestIsOwn
  split
  · rename_i y hy
    rw [hy, Option.some_or]
    constructor
    · rintro ⟨hown, hmoved⟩
      have hsession : ofSession s y = true := beq_iff_eq.mpr hown
      obtain ⟨z, hz⟩ := lastSave_isSome (mem_of_lastSave hy).1 hsession
      -- both are the last of the saves of the session that are in place
      have hin : inPlaceFor s moved z = true := by
        rw [inPlaceFor, foundFor_of_ofSession (mem_of_lastSave hz).2, Bool.true_and, bne_iff_ne]
        exact hmoved z hz
      have hlastz : lastSave saved (fun y => ofSession s y && inPlaceFor s moved y) = some z := by
        refine lastSave_of_imp (fun _ _ h => (Bool.and_eq_true _ _ ▸ h).1) hz ?_
        rw [(mem_of_lastSave hz).2, hin]
        rfl
      have hlasty : lastSave saved (fun y => ofSession s y && inPlaceFor s moved y) = some y := by
        refine lastSave_of_imp (fun _ _ h => (Bool.and_eq_true _ _ ▸ h).2) hy ?_
        rw [(mem_of_lastSave hy).2, hsession]
        rfl
      rw [hz, ← hlastz, hlasty]
    · intro heq
      refine ⟨beq_iff_eq.mp (mem_of_lastSave heq.symm).2, fun z hz => ?_⟩
      obtain rfl : y = z := Option.some.inj (heq.trans hz)
      have hin := (mem_of_lastSave hy).2
      rw [inPlaceFor, Bool.and_eq_true, bne_iff_ne] at hin
      exact hin.2
  · rename_i hnone
    rw [hnone, Option.none_or]
    constructor
    · intro hown
      rcases hfound : lastSave saved (foundFor s) with _ | y
      · symm
        rw [lastSave_eq_none_iff]
        intro z hz
        by_contra hsession
        have hfor := foundFor_of_ofSession (Bool.not_eq_false _ ▸ hsession)
        rw [lastSave_eq_none_iff.mp hfound z hz] at hfor
        cases hfor
      · have hsession : ofSession s y = true := beq_iff_eq.mpr (hown y hfound)
        exact (lastSave_of_imp (fun _ _ => foundFor_of_ofSession) hfound hsession).symm
    · intro heq y hy
      exact beq_iff_eq.mp (mem_of_lastSave (heq.symm.trans hy)).2

instance : Decidable (NewestIsOwn saved moved s) := decidable_of_iff _ newestIsOwn_iff.symm

/-- A save that was cut off is not found unless it was complete. -/
theorem Crashed.resumesLast_iff (h : Crashed done cut dir listed) {result : Option PlanState}
    (hresult : ∀ y ∈ result, y ∈ completed done dir cut) :
    ResumesLast done cut dir s (.ok result) ↔
      result = lastSave (completed done dir cut) (ofSession s) := by
  constructor
  · rintro (heq | ⟨x, count, rfl, hsession, heq⟩)
    · exact Except.ok.inj heq
    · obtain rfl := Except.ok.inj heq
      have hmem := hresult _ rfl
      have hsorted := h.times
      rw [completed, List.mem_append] at hmem
      rcases hmem with hold | hnew
      · obtain ⟨older, holder, heq⟩ := List.mem_map.mp hold
        have hlt : older.now < x.now :=
          (List.pairwise_append.mp hsorted).2.2 older holder x (by simp)
        have hnow : older.now = x.now := congrArg PlanState.updatedAt heq
        omega
      · unfold finished at hnew
        dsimp only at hnew
        split at hnew
        · rename_i hall
          rw [completed, finished, if_pos hall, lastSave_snoc, if_pos]
          exact beq_iff_eq.mpr hsession
        · cases hnew
  · exact fun heq => Or.inl (congrArg Except.ok heq)

/-- **A session resumes its last saved plan** exactly when the newest plan
it finds is its own, and a crash has not moved that plan aside while
another one is in place. -/
theorem resumes_last_iff (h : Crashed done cut dir listed)
    (hs : validateFilePart s "session_id" = .ok ()) :
    ResumesLast done cut dir s (loadLatest listed s) ↔
      NewestIsOwn (completed done dir cut) (movedAside dir cut) s := by
  rw [h.loadLatest hs, newestIsOwn_iff]
  refine h.resumesLast_iff fun y hy => ?_
  rcases Option.or_eq_some_iff.mp (hy : _ = some y) with hin | ⟨-, hfound⟩
  · exact (mem_of_lastSave hin).1
  · exact (mem_of_lastSave hfound).1

/-! ## A crash between the two renamings -/

def afterSaves (done : List Save) : Checkpoints :=
  (saveAll Table.empty done).getD Table.empty

def afterCrash (done : List Save) (cut : Cut) : Checkpoints :=
  (interrupted (afterSaves done) cut).getD (afterSaves done)

theorem crashed_afterCrash (hsaved : (saveAll Table.empty done).isSome = true)
    (hleft : (interrupted (afterSaves done) cut).isSome = true)
    (htimes : (done ++ (cut.map (·.1)).toList).Pairwise fun x y => x.now < y.now) :
    Crashed done cut (afterSaves done) (afterCrash done cut) where
  saves := by
    obtain ⟨dir, hdir⟩ := Option.isSome_iff_exists.mp hsaved
    rw [afterSaves, hdir]
    rfl
  times := htimes
  stopped := by
    obtain ⟨left, hdir⟩ := Option.isSome_iff_exists.mp hleft
    refine ⟨left, hdir, ?_⟩
    rw [afterCrash, hdir]
    exact .refl left

def executing (planName : String) (now : Int) : Save where
  state := { planName := planName.toList, sessionId := ['s'], phase := .executing }
  now

/-- The second save of the only plan of a session is cut off; the first one is resumed. -/
theorem resumes_last_of_one_plan :
    ResumesLast [executing "a" 1] (some (executing "a" 2, 2)) (afterSaves [executing "a" 1]) ['s']
      (loadLatest (afterCrash [executing "a" 1] (some (executing "a" 2, 2))) ['s']) := by
  have hcrash : Crashed [executing "a" 1] (some (executing "a" 2, 2)) _ _ :=
    crashed_afterCrash (by decide) (by decide) (by decide)
  exact (resumes_last_iff hcrash rfl).mpr (by decide)

/-- Of two plans, the one saved last is moved aside, and the session finds
the other one. -/
theorem older_plan_resumed :
    ¬ ∀ (done : List Save) (cut : Cut) (dir listed : Checkpoints) (s : List Char),
      Crashed done cut dir listed → validateFilePart s "session_id" = .ok () →
        ResumesLast done cut dir s (loadLatest listed s) := by
  intro hclaim
  have hcrash : Crashed [executing "b" 1, executing "a" 2] (some (executing "a" 3, 2)) _ _ :=
    crashed_afterCrash (by decide) (by decide) (by decide)
  have hfound : loadLatest (afterCrash [executing "b" 1, executing "a" 2]
      (some (executing "a" 3, 2))) ['s'] = .ok (some (executing "b" 1).written) := by rfl
  have hlast := hclaim _ _ _ _ ['s'] hcrash rfl
  rw [hfound] at hlast
  rcases hlast with heq | ⟨x, count, heq, -, hresult⟩
  · exact absurd (Except.ok.inj heq) (by decide)
  · cases heq
    exact absurd (Option.some.inj (Except.ok.inj hresult)) (by decide)

end NeuralHub.Plan
