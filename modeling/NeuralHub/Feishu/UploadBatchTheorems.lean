/-
NeuralHub.Feishu.UploadBatchTheorems — when every uploaded file is
submitted once.

Three things must not happen (`Orderly`): a flush gets the lock while
another one is under way, because the lock has expired; a flush removes the
keys of the batch while there is a file that it has not submitted, or an
addition that has set the keys and not yet pushed its file; a delayed flush
is refused by a flush that has already finished its submission, and there
are files. In a run without these, what was pushed is what was submitted
and behind it what is still in the list (`Inv.order`), and while there is
something in the list some call will see to it (`Covered`): `submitted_once`.
-/
import NeuralHub.Feishu.UploadBatch

namespace NeuralHub.Feishu.UploadBatch

open NeuralHub.Lib

variable {cfg : UploadBatchConfig} {s t : State} {a : Action}

/-! ## Orderly steps -/

/-- The submission is not decided, or the files are not removed yet. -/
def Flush.unfinished : Flush → Bool
  | .cleared | .failed => false
  | _ => true

/-- The addition has set a key and has not pushed its file. -/
def AddCall.half (call : AddCall) : Bool := call.point = .firstSet || call.point = .lastSet

def Orderly (s : State) : Action → Prop
  | .tryLock delayed =>
    if s.isLocked then delayed = true → s.files = [] ∨ ∃ f ∈ s.flushes, f.unfinished = true
    else s.flushes = []
  | .flush .trimmed => s.files = [] ∧ ∀ call ∈ s.adds, call.half = false
  | _ => True

instance (s : State) : (a : Action) → Decidable (Orderly s a)
  | .tryLock delayed => inferInstanceAs (Decidable (if s.isLocked then
      delayed = true → s.files = [] ∨ ∃ f ∈ s.flushes, f.unfinished = true else s.flushes = []))
  | .flush .trimmed =>
    inferInstanceAs (Decidable (s.files = [] ∧ ∀ call ∈ s.adds, call.half = false))
  | .flush .locked | .flush (.read _) | .flush (.submitted _) | .flush .cleared | .flush .failed
  | .tick _ | .beginAdd _ | .add _ | .timer _ | .submitFails _ => inferInstanceAs (Decidable True)

/-! ## The invariant -/

/-- How many files at the head of the list are submitted already. -/
def Flush.submittedCount : Flush → Nat
  | .submitted count => count
  | _ => 0

/-- The files in the list that are not submitted. -/
def State.rest (s : State) : List FeishuFileItem :=
  s.files.drop (s.flushes.map Flush.submittedCount).sum

/-- The delayed flush will find that it is time. -/
def Timer.due (cfg : UploadBatchConfig) (s : State) : Timer → Prop
  | .sleeping wake => ∀ seen, s.last = some seen → seen + cfg.quietWindow ≤ wake
  | .awake first => first.isSome = true ∧
      ∀ seen, s.last = some seen → seen + cfg.quietWindow ≤ s.now
  | .seen first last => first.isSome = true ∧ ∃ seen, last = some seen ∧
      seen + cfg.quietWindow ≤ s.now

/-- Some call is going to submit the files, or to start a delayed flush that will. -/
inductive Covered (cfg : UploadBatchConfig) (s : State) : Prop
  | add (h : s.adds ≠ [])
  | attempt (h : true ∈ s.attempts)
  | flush (f : Flush) (hmem : f ∈ s.flushes) (h : f.unfinished = true)
  | timer (t : Timer) (hmem : t ∈ s.timers) (h : t.due cfg s)

structure Inv (cfg : UploadBatchConfig) (s : State) : Prop where
  one : s.flushes.length ≤ 1
  held : s.lock.isSome = true → s.flushes ≠ []
  order : s.pushed = s.batches.flatten ++ s.rest
  read : ∀ batch, .read batch ∈ s.flushes → batch <+: s.files
  submitted : ∀ count, .submitted count ∈ s.flushes → count ≤ s.files.length
  firstKey : s.rest ≠ [] ∨ (∃ call ∈ s.adds, call.half = true) → s.first.isSome = true
  lastKey : s.rest ≠ [] ∨ (∃ call ∈ s.adds, call.point = .lastSet) → s.last.isSome = true
  lastTime : ∀ seen, s.last = some seen → seen ≤ s.now
  addTime : ∀ call ∈ s.adds, call.now ≤ s.now
  cover : s.rest ≠ [] → Covered cfg s

theorem Inv.flushes_eq (h : Inv cfg s) {f : Flush} (hf : f ∈ s.flushes) : s.flushes = [f] := by
  obtain ⟨g, hg⟩ := List.length_eq_one_iff.mp
    (Nat.le_antisymm h.one (List.length_pos_of_mem hf))
  rw [hg, List.mem_singleton] at hf
  rw [hg, hf]

theorem inv_init (now : Nat) : Inv cfg { now } := by
  constructor
  · exact Nat.zero_le 1
  · exact fun h => nomatch h
  · rfl
  · exact fun _ h => nomatch h
  · exact fun _ h => nomatch h
  · rintro (h | ⟨_, h, -⟩)
    · exact absurd rfl h
    · cases h
  · rintro (h | ⟨_, h, -⟩)
    · exact absurd rfl h
    · cases h
  · exact fun _ h => nomatch h
  · exact fun _ h => nomatch h
  · exact fun h => absurd rfl h

/-! ## Time and additions -/

theorem Inv.tick (h : Inv cfg s) (elapsed : Nat) : Inv cfg { s with now := s.now + elapsed } where
  one := h.one
  held := h.held
  order := h.order
  read := h.read
  submitted := h.submitted
  firstKey := h.firstKey
  lastKey := h.lastKey
  lastTime seen hseen := Nat.le_add_right_of_le (h.lastTime seen hseen)
  addTime call hcall := Nat.le_add_right_of_le (h.addTime call hcall)
  cover hrest := by
    cases h.cover hrest with
    | add hadds => exact .add hadds
    | attempt hattempt => exact .attempt hattempt
    | flush f hmem hf => exact .flush f hmem hf
    | timer t hmem hdue =>
      refine .timer t hmem ?_
      cases t with
      | sleeping wake => exact hdue
      | awake first => exact ⟨hdue.1, fun seen hseen => Nat.le_add_right_of_le (hdue.2 seen hseen)⟩
      | seen first last =>
        obtain ⟨hfirst, seen, hlast, hquiet⟩ := hdue
        exact ⟨hfirst, seen, hlast, Nat.le_add_right_of_le hquiet⟩

/-- An addition takes a step that leaves files, keys and flushes alone. -/
theorem Inv.of_adds (h : Inv cfg s) (call : AddCall) (hcall : call.now ≤ s.now)
    (hhalf : call.half = false) {others : List AddCall} (hothers : others ⊆ s.adds)
    {count totalSize : Nat} :
    Inv cfg { s with adds := call :: others, count, totalSize } where
  one := h.one
  held := h.held
  order := h.order
  read := h.read
  submitted := h.submitted
  firstKey hneeds := by
    refine h.firstKey (hneeds.imp_right fun ⟨other, hmem, hother⟩ => ?_)
    rcases List.mem_cons.mp hmem with rfl | hmem
    · rw [hhalf] at hother
      cases hother
    · exact ⟨other, hothers hmem, hother⟩
  lastKey hneeds := by
    refine h.lastKey (hneeds.imp_right fun ⟨other, hmem, hother⟩ => ?_)
    rcases List.mem_cons.mp hmem with rfl | hmem
    · rw [AddCall.half, hother] at hhalf
      cases hhalf
    · exact ⟨other, hothers hmem, hother⟩
  lastTime := h.lastTime
  addTime := List.forall_mem_cons.mpr ⟨hcall, fun other hmem => h.addTime other (hothers hmem)⟩
  cover _ := .add (List.cons_ne_nil _ _)

theorem Inv.beginAdd (h : Inv cfg s) (file : FeishuFileItem) :
    Inv cfg { s with adds := ⟨file, s.now, .begun⟩ :: s.adds } :=
  h.of_adds ⟨file, s.now, .begun⟩ (Nat.le_refl _) rfl (List.Subset.refl _)

/-- `SET NX` of the first key. -/
theorem Inv.setFirst (h : Inv cfg s) {call : AddCall} (hmem : call ∈ s.adds) :
    Inv cfg { s with
      first := some (s.first.getD call.now)
      adds := { call with point := .firstSet } :: s.adds.erase call } where
  one := h.one
  held := h.held
  order := h.order
  read := h.read
  submitted := h.submitted
  firstKey _ := rfl
  lastKey hneeds := by
    refine h.lastKey (hneeds.imp_right fun ⟨other, hother, hpoint⟩ => ?_)
    rcases List.mem_cons.mp hother with rfl | hother
    · cases hpoint
    · exact ⟨other, List.mem_of_mem_erase hother, hpoint⟩
  lastTime := h.lastTime
  addTime := List.forall_mem_cons.mpr
    ⟨h.addTime call hmem, fun other hother => h.addTime other (List.mem_of_mem_erase hother)⟩
  cover _ := .add (List.cons_ne_nil _ _)

/-- `SET` of the last key. -/
theorem Inv.setLast (h : Inv cfg s) {call : AddCall} (hmem : call ∈ s.adds)
    (hpoint : call.point = .firstSet) :
    Inv cfg { s with
      last := some call.now
      adds := { call with point := .lastSet } :: s.adds.erase call } where
  one := h.one
  held := h.held
  order := h.order
  read := h.read
  submitted := h.submitted
  firstKey _ := by
    have hhalf : call.half = true := by rw [AddCall.half, hpoint]; rfl
    exact h.firstKey (Or.inr ⟨call, hmem, hhalf⟩)
  lastKey _ := rfl
  lastTime seen hseen := Option.some.inj hseen ▸ h.addTime call hmem
  addTime := List.forall_mem_cons.mpr
    ⟨h.addTime call hmem, fun other hother => h.addTime other (List.mem_of_mem_erase hother)⟩
  cover _ := .add (List.cons_ne_nil _ _)

theorem submittedCount_le (h : Inv cfg s) :
    (s.flushes.map Flush.submittedCount).sum ≤ s.files.length := by
  cases hflushes : s.flushes with
  | nil => exact Nat.zero_le _
  | cons f _ =>
    rw [← hflushes, h.flushes_eq (hflushes ▸ List.mem_cons_self), List.map_singleton,
      List.sum_singleton]
    cases f with
    | submitted count => exact h.submitted count (hflushes ▸ List.mem_cons_self)
    | _ => exact Nat.zero_le _

/-- `RPUSH`; the keys are there, because nothing has removed them since they were set. -/
theorem Inv.push (h : Inv cfg s) {call : AddCall} (hmem : call ∈ s.adds)
    (hpoint : call.point = .lastSet) :
    Inv cfg { s with
      files := s.files ++ [call.file]
      pushed := s.pushed ++ [call.file]
      adds := { call with point := .pushed } :: s.adds.erase call } where
  one := h.one
  held := h.held
  order := by
    have hrest : (s.files ++ [call.file]).drop (s.flushes.map Flush.submittedCount).sum =
        s.rest ++ [call.file] := List.drop_append_of_le_length (submittedCount_le h)
    show s.pushed ++ [call.file] = s.batches.flatten ++ _
    rw [State.rest]
    simp only
    rw [hrest, h.order, List.append_assoc]
  read batch hbatch := (h.read batch hbatch).trans (List.prefix_append _ _)
  submitted count hcount := by
    rw [List.length_append]
    exact Nat.le_add_right_of_le (h.submitted count hcount)
  firstKey _ := by
    have hhalf : call.half = true := by rw [AddCall.half, hpoint]; rfl
    exact h.firstKey (Or.inr ⟨call, hmem, hhalf⟩)
  lastKey _ := h.lastKey (Or.inr ⟨call, hmem, hpoint⟩)
  lastTime := h.lastTime
  addTime := List.forall_mem_cons.mpr
    ⟨h.addTime call hmem, fun other hother => h.addTime other (List.mem_of_mem_erase hother)⟩
  cover _ := .add (List.cons_ne_nil _ _)

/-- A delayed flush that is started now is due: the last key is not younger. -/
theorem Inv.due_sleeping (h : Inv cfg s) {u : State} (hlast : u.last = s.last) :
    (Timer.sleeping (s.now + cfg.quietWindow)).due cfg u := fun seen hseen =>
  Nat.add_le_add_right (h.lastTime seen (hlast ▸ hseen)) _

/-- The end of an addition starts a delayed flush. -/
theorem Inv.arm (h : Inv cfg s) {others : List AddCall} (hothers : others ⊆ s.adds)
    {attempts : List Bool} :
    Inv cfg { s with
      adds := others
      timers := .sleeping (s.now + cfg.quietWindow) :: s.timers
      attempts } where
  one := h.one
  held := h.held
  order := h.order
  read := h.read
  submitted := h.submitted
  firstKey hneeds := h.firstKey (hneeds.imp_right fun ⟨other, hmem, hother⟩ =>
    ⟨other, hothers hmem, hother⟩)
  lastKey hneeds := h.lastKey (hneeds.imp_right fun ⟨other, hmem, hother⟩ =>
    ⟨other, hothers hmem, hother⟩)
  lastTime := h.lastTime
  addTime other hmem := h.addTime other (hothers hmem)
  cover _ := .timer _ List.mem_cons_self (h.due_sleeping rfl)

theorem Inv.stepAdd (h : Inv cfg s) {call : AddCall} (hmem : call ∈ s.adds) :
    Inv cfg (stepAdd cfg s call) := by
  unfold UploadBatch.stepAdd
  cases hpoint : call.point with
  | begun => exact h.setFirst hmem
  | firstSet => exact h.setLast hmem hpoint
  | lastSet => exact h.push hmem hpoint
  | pushed =>
    exact h.of_adds { call with point := .counted (s.count + 1) } (h.addTime call hmem) rfl
      fun _ => List.mem_of_mem_erase
  | counted count =>
    exact h.of_adds { call with point := .sized count (s.totalSize + sizeOf call.file) }
      (h.addTime call hmem) rfl fun _ => List.mem_of_mem_erase
  | sized count totalSize => exact h.arm fun _ => List.mem_of_mem_erase

/-! ## Delayed flushes -/

/-- The calls that see to the files are still there, or the step is one of theirs. -/
theorem Covered.timers {timers : List Timer} {attempts : List Bool} (h : Covered cfg s)
    (hattempts : s.attempts ⊆ attempts)
    (htimers : ∀ t ∈ s.timers, t.due cfg s → t ∈ timers ∨
      Covered cfg { s with timers, attempts }) : Covered cfg { s with timers, attempts } := by
  cases h with
  | add hadds => exact .add hadds
  | attempt hattempt => exact .attempt (hattempts hattempt)
  | flush f hmem hf => exact .flush f hmem hf
  | timer t hmem hdue =>
    rcases htimers t hmem hdue with hstays | hcovered
    · exact .timer t hstays (by cases t <;> exact hdue)
    · exact hcovered

/-- Neither keys nor files change. -/
theorem Inv.of_timers (h : Inv cfg s) {timers : List Timer} {attempts : List Bool}
    (hcover : s.rest ≠ [] → Covered cfg { s with timers, attempts }) :
    Inv cfg { s with timers, attempts } where
  one := h.one
  held := h.held
  order := h.order
  read := h.read
  submitted := h.submitted
  firstKey := h.firstKey
  lastKey := h.lastKey
  lastTime := h.lastTime
  addTime := h.addTime
  cover := hcover

theorem Inv.stepTimer (h : Inv cfg s) {timer : Timer}
    (ht : stepTimer cfg s timer = some t) : Inv cfg t := by
  unfold UploadBatch.stepTimer at ht
  cases timer with
  | sleeping wake =>
    simp only at ht
    split at ht
    · next hwake =>
      cases ht
      refine h.of_timers fun hrest => (h.cover hrest).timers (List.Subset.refl _)
        fun other hother hdue => ?_
      by_cases heq : other = .sleeping wake
      · refine Or.inr (.timer (.awake s.first) List.mem_cons_self ⟨h.firstKey (Or.inl hrest), ?_⟩)
        rw [heq] at hdue
        exact fun seen hseen => Nat.le_trans (hdue seen hseen) hwake
      · exact Or.inl (List.mem_cons_of_mem _ ((List.mem_erase_of_ne heq).mpr hother))
    · cases ht
  | awake first =>
    cases ht
    refine h.of_timers fun hrest => (h.cover hrest).timers (List.Subset.refl _)
      fun other hother hdue => ?_
    by_cases heq : other = .awake first
    · rw [heq] at hdue
      obtain ⟨seen, hseen⟩ := Option.isSome_iff_exists.mp (h.lastKey (Or.inl hrest))
      exact Or.inr (.timer (.seen first s.last) List.mem_cons_self
        ⟨hdue.1, seen, hseen, hdue.2 seen hseen⟩)
    · exact Or.inl (List.mem_cons_of_mem _ ((List.mem_erase_of_ne heq).mpr hother))
  | seen first last =>
    cases ht
    refine h.of_timers fun hrest => (h.cover hrest).timers ?_ fun other hother hdue => ?_
    · split
      · exact List.subset_cons_self _ _
      · exact List.Subset.refl _
    · by_cases heq : other = .seen first last
      · rw [heq] at hdue
        obtain ⟨hfirst, seen, hlast, hquiet⟩ := hdue
        obtain ⟨began, hbegan⟩ := Option.isSome_iff_exists.mp hfirst
        have hflush : shouldFlush cfg s.now first last = true := by
          rw [hbegan, hlast, shouldFlush, decide_eq_true hquiet, Bool.true_or]
        rw [hflush, if_pos rfl]
        exact Or.inr (.attempt List.mem_cons_self)
      · exact Or.inl ((List.mem_erase_of_ne heq).mpr hother)

/-! ## Flushes -/

/-- A flush asks for the lock. -/
theorem Inv.stepLock (h : Inv cfg s) {delayed : Bool} (horderly : Orderly s (.tryLock delayed)) :
    Inv cfg (stepLock s delayed) := by
  unfold UploadBatch.stepLock
  simp only [Orderly] at horderly ⊢
  split at horderly
  · next hlocked =>
    -- refused: a delayed flush may go only if the flush that is under way sees to the files
    rw [if_pos hlocked]
    refine h.of_timers fun hrest => ?_
    cases h.cover hrest with
    | add hadds => exact .add hadds
    | attempt hattempt =>
      cases delayed with
      | false => exact .attempt ((List.mem_erase_of_ne (Bool.false_ne_true ∘ Eq.symm)).mpr hattempt)
      | true =>
        rcases horderly rfl with hnil | ⟨f, hmem, hf⟩
        · refine absurd ?_ hrest
          rw [State.rest, hnil, List.drop_nil]
        · exact .flush f hmem hf
    | flush f hmem hf => exact .flush f hmem hf
    | timer t hmem hdue => exact .timer t hmem (by cases t <;> exact hdue)
  · next hfree =>
    rw [if_neg hfree]
    have hrest : s.files.drop ((Flush.locked :: s.flushes).map Flush.submittedCount).sum =
        s.rest := by
      rw [State.rest, horderly]
      rfl
    constructor
    · rw [horderly]
      exact Nat.le_refl 1
    · exact fun _ => List.cons_ne_nil _ _
    · exact h.order.trans (congrArg _ hrest.symm)
    · intro batch hbatch
      rw [horderly, List.mem_singleton] at hbatch
      cases hbatch
    · intro count hcount
      rw [horderly, List.mem_singleton] at hcount
      cases hcount
    · exact fun hneeds => h.firstKey (hneeds.imp_left fun hne => hrest ▸ hne)
    · exact fun hneeds => h.lastKey (hneeds.imp_left fun hne => hrest ▸ hne)
    · exact h.lastTime
    · exact h.addTime
    · exact fun _ => .flush .locked List.mem_cons_self rfl

/-- The one flush takes a step that leaves the keys alone. -/
theorem Inv.of_flush (h : Inv cfg s) {f : Flush} {files : List FeishuFileItem}
    {batches : List (List FeishuFileItem)}
    (horder : s.batches.flatten ++ s.rest =
      batches.flatten ++ files.drop f.submittedCount)
    (hread : ∀ batch, f = .read batch → batch <+: files)
    (hsubmitted : ∀ count, f = .submitted count → count ≤ files.length)
    (hrest : files.drop f.submittedCount ≠ [] → s.rest ≠ []) (hf : f.unfinished = true) :
    Inv cfg { s with files, batches, flushes := [f] } := by
  have hcount : ([f].map Flush.submittedCount).sum = f.submittedCount := by
    rw [List.map_singleton, List.sum_singleton]
  have hdrop : files.drop ([f].map Flush.submittedCount).sum = files.drop f.submittedCount :=
    congrArg (files.drop ·) hcount
  constructor
  · exact Nat.le_refl 1
  · exact fun _ => List.cons_ne_nil _ _
  · exact (h.order.trans horder).trans (congrArg _ hdrop.symm)
  · exact fun batch hbatch => hread batch (List.mem_singleton.mp hbatch).symm
  · exact fun count hcount => hsubmitted count (List.mem_singleton.mp hcount).symm
  · exact fun hneeds => h.firstKey (hneeds.imp_left fun hne => hrest (hdrop ▸ hne))
  · exact fun hneeds => h.lastKey (hneeds.imp_left fun hne => hrest (hdrop ▸ hne))
  · exact h.lastTime
  · exact h.addTime
  · exact fun _ => .flush f (List.mem_singleton.mpr rfl) hf

theorem Inv.rest_eq (h : Inv cfg s) {f : Flush} (hf : f ∈ s.flushes) :
    s.rest = s.files.drop f.submittedCount := by
  rw [State.rest, h.flushes_eq hf, List.map_singleton, List.sum_singleton]

theorem erase_self (f : Flush) : [f].erase f = [] := List.erase_cons_head f []

/-- The keys are removed; there is nothing left to submit. -/
theorem Inv.clear (h : Inv cfg s) (hfiles : s.files = [])
    (hadds : ∀ call ∈ s.adds, call.half = false) :
    Inv cfg { s with
      first := none, last := none, count := 0, totalSize := 0, flushes := [.cleared] } := by
  have hrest : s.rest = [] := by rw [State.rest, hfiles, List.drop_nil]
  have hnone : s.files.drop ([Flush.cleared].map Flush.submittedCount).sum = [] := by
    rw [hfiles, List.drop_nil]
  have hpushed := h.order
  rw [hrest] at hpushed
  constructor
  · exact Nat.le_refl 1
  · exact fun _ => List.cons_ne_nil _ _
  · exact hpushed.trans (congrArg _ hnone.symm)
  · intro batch hbatch
    rw [List.mem_singleton] at hbatch
    cases hbatch
  · intro count hcount
    rw [List.mem_singleton] at hcount
    cases hcount
  · rintro (hne | ⟨call, hcall, hhalf⟩)
    · exact absurd hnone hne
    · rw [hadds call hcall] at hhalf
      cases hhalf
  · rintro (hne | ⟨call, hcall, hpoint⟩)
    · exact absurd hnone hne
    · have hhalf := hadds call hcall
      rw [AddCall.half, hpoint] at hhalf
      cases hhalf
  · exact fun _ hseen => nomatch hseen
  · exact h.addTime
  · exact fun hne => absurd hnone hne

/-- The lock is given back, by a flush that has nothing to do any more. -/
theorem Inv.unlock (h : Inv cfg s) {f : Flush} (hf : f ∈ s.flushes)
    (hcount : f.submittedCount = 0) (hdone : f.unfinished = false) :
    Inv cfg { s with lock := none, flushes := [] } := by
  have hrest : s.files.drop (([] : List Flush).map Flush.submittedCount).sum = s.rest := by
    rw [h.rest_eq hf, hcount]
    rfl
  constructor
  · exact Nat.zero_le 1
  · exact fun hlock => nomatch hlock
  · exact h.order.trans (congrArg _ hrest.symm)
  · exact fun _ hbatch => nomatch hbatch
  · exact fun _ hcount => nomatch hcount
  · exact fun hneeds => h.firstKey (hneeds.imp_left fun hne => hrest ▸ hne)
  · exact fun hneeds => h.lastKey (hneeds.imp_left fun hne => hrest ▸ hne)
  · exact h.lastTime
  · exact h.addTime
  · intro hne
    cases h.cover (hrest ▸ hne) with
    | add hadds => exact .add hadds
    | attempt hattempt => exact .attempt hattempt
    | flush g hmem hg =>
      rw [h.flushes_eq hf, List.mem_singleton] at hmem
      rw [hmem, hdone] at hg
      cases hg
    | timer t hmem hdue => exact .timer t hmem (by cases t <;> exact hdue)

theorem Inv.stepFlush (h : Inv cfg s) {f : Flush} (hf : f ∈ s.flushes)
    (horderly : Orderly s (.flush f)) : Inv cfg (stepFlush s f) := by
  have hrest := h.rest_eq hf
  have herase : s.flushes.erase f = [] := by rw [h.flushes_eq hf, erase_self]
  unfold UploadBatch.stepFlush
  rw [herase]
  cases f with
  | locked =>
    refine h.of_flush (f := .read s.files) ?_ ?_ ?_ ?_ rfl
    · exact congrArg _ hrest
    · rintro batch ⟨⟩
      exact List.prefix_rfl
    · exact fun _ heq => nomatch heq
    · exact fun hne => hrest ▸ hne
  | read batch =>
    obtain ⟨new, hnew⟩ := h.read batch hf
    have hdrop : s.files.drop batch.length = new := by rw [← hnew, List.drop_left' rfl]
    have hall : s.rest = batch ++ new := hrest.trans hnew.symm
    refine h.of_flush (f := .submitted batch.length) ?_ ?_ ?_ ?_ rfl
    · show _ = _ ++ s.files.drop batch.length
      rw [hdrop, hall]
      split
      · next hnil => rw [hnil, List.nil_append]
      · rw [List.flatten_append, List.flatten_singleton, List.append_assoc]
    · exact fun _ heq => nomatch heq
    · rintro count ⟨⟩
      rw [← hnew, List.length_append]
      exact Nat.le_add_right _ _
    · intro hne
      rw [hall]
      exact List.append_ne_nil_of_right_ne_nil _ (hdrop ▸ hne)
  | submitted count =>
    refine h.of_flush (f := .trimmed) ?_ ?_ ?_ ?_ rfl
    · exact congrArg _ hrest
    · exact fun _ heq => nomatch heq
    · exact fun _ heq => nomatch heq
    · exact fun hne => hrest ▸ hne
  | trimmed => exact h.clear horderly.1 horderly.2
  | cleared => exact h.unlock hf rfl rfl
  | failed => exact h.unlock hf rfl rfl

/-- A submission fails: another delayed flush is started, and nothing else changes. -/
theorem Inv.submitFails (h : Inv cfg s) {batch : List FeishuFileItem}
    (hf : .read batch ∈ s.flushes) :
    Inv cfg { s with
      timers := .sleeping (s.now + cfg.quietWindow) :: s.timers
      flushes := [.failed] } := by
  have hrest : s.files.drop ([Flush.failed].map Flush.submittedCount).sum = s.rest := by
    rw [h.rest_eq hf]
    rfl
  constructor
  · exact Nat.le_refl 1
  · exact fun _ => List.cons_ne_nil _ _
  · exact h.order.trans (congrArg _ hrest.symm)
  · intro batch hbatch
    rw [List.mem_singleton] at hbatch
    cases hbatch
  · intro count hcount
    rw [List.mem_singleton] at hcount
    cases hcount
  · exact fun hneeds => h.firstKey (hneeds.imp_left fun hne => hrest ▸ hne)
  · exact fun hneeds => h.lastKey (hneeds.imp_left fun hne => hrest ▸ hne)
  · exact h.lastTime
  · exact h.addTime
  · exact fun _ => .timer _ List.mem_cons_self (h.due_sleeping rfl)

/-! ## Runs -/

theorem inv_step (h : Inv cfg s) (horderly : Orderly s a) (ht : step cfg s a = some t) :
    Inv cfg t := by
  cases a with
  | tick elapsed =>
    cases ht
    exact h.tick elapsed
  | beginAdd file =>
    cases ht
    exact h.beginAdd file
  | add call =>
    simp only [step] at ht
    split at ht
    · next hmem =>
      cases ht
      exact h.stepAdd hmem
    · cases ht
  | timer timer =>
    simp only [step] at ht
    split at ht
    · exact h.stepTimer ht
    · cases ht
  | tryLock delayed =>
    simp only [step] at ht
    split at ht
    · cases ht
      exact h.stepLock horderly
    · cases ht
  | flush f =>
    simp only [step] at ht
    split at ht
    · next hmem =>
      cases ht
      exact h.stepFlush hmem horderly
    · cases ht
  | submitFails batch =>
    simp only [step] at ht
    split at ht
    · next hread =>
      cases ht
      rw [h.flushes_eq hread.1, erase_self]
      exact h.submitFails hread.1
    · cases ht

/-- Every file is in exactly one of the submitted batches. -/
def SubmittedOnce (s : State) : Prop := s.batches.flatten.Perm s.pushed

instance (s : State) : Decidable (SubmittedOnce s) :=
  inferInstanceAs (Decidable (List.Perm _ _))

/-- **Every file is submitted once**: in an orderly run no file is submitted twice, and when
all calls have ended all files are submitted, in the order in which they were pushed. -/
theorem submitted_once (cfg : UploadBatchConfig) (now : Nat) (as : List Action) (s : State)
    (hrun : (machine cfg).run { now } as = some s)
    (horderly : (machine cfg).Meets Orderly { now } as) :
    s.batches.flatten <+: s.pushed ∧ (s.atRest = true → SubmittedOnce s) := by
  have hinv : Inv cfg s := (machine cfg).run_invariant_of_meets
    (fun _ _ _ hinv hC hstep => inv_step hinv hC hstep) (inv_init now) horderly hrun
  refine ⟨⟨s.rest, hinv.order.symm⟩, fun hrest => ?_⟩
  unfold State.atRest at hrest
  simp only [Bool.and_eq_true, List.isEmpty_iff] at hrest
  obtain ⟨⟨⟨hadds, htimers⟩, hattempts⟩, hflushes⟩ := hrest
  have hnil : s.rest = [] := by
    by_contra hne
    cases hinv.cover hne with
    | add h => exact h hadds
    | attempt h =>
      rw [hattempts] at h
      cases h
    | flush f h _ =>
      rw [hflushes] at h
      cases h
    | timer t h _ =>
      rw [htimers] at h
      cases h
  rw [SubmittedOnce, hinv.order, hnil, List.append_nil]

def upload (messageId : String) : FeishuFileItem :=
  ⟨"ou_1", "oc_1", messageId, messageId, messageId ++ ".pdf", "kb_1", "KB", 1⟩

/-- The file is added, as the one with this number in the batch. -/
def addIt (file : FeishuFileItem) (now number : Nat) : List Action :=
  .beginAdd file :: ([.begun, .firstSet, .lastSet, .pushed, .counted number,
    .sized number number] : List AddPoint).map fun point => .add ⟨file, now, point⟩

/-- A delayed flush wakes and finds that it is time. -/
def wakeUp (wake first last : Nat) : List Action :=
  [.timer (.sleeping wake), .timer (.awake (some first)), .timer (.seen (some first) (some last)),
    .tryLock true]

/-- A flush that has read the batch goes on to its end. -/
def finishFlush (batch : List FeishuFileItem) : List Action :=
  [.flush (.read batch), .flush (.submitted batch.length), .flush .trimmed, .flush .cleared]

/-- Two files are added in turns. Their submission fails, a third file is
added, and the retry submits all three, while another delayed flush finds
the lock taken. -/
def uploadsWithRetry : List Action :=
  [.beginAdd (upload "a"), .beginAdd (upload "b"),
    .add ⟨upload "a", 0, .begun⟩, .add ⟨upload "b", 0, .begun⟩,
    .add ⟨upload "b", 0, .firstSet⟩, .add ⟨upload "a", 0, .firstSet⟩,
    .add ⟨upload "b", 0, .lastSet⟩, .add ⟨upload "a", 0, .lastSet⟩,
    .add ⟨upload "a", 0, .pushed⟩, .add ⟨upload "b", 0, .pushed⟩,
    .add ⟨upload "b", 0, .counted 2⟩, .add ⟨upload "a", 0, .counted 1⟩,
    .add ⟨upload "a", 0, .sized 1 2⟩, .add ⟨upload "b", 0, .sized 2 1⟩, .tick 5000000] ++
    wakeUp 5000000 0 0 ++
    [.flush .locked, .submitFails [upload "b", upload "a"], .flush .failed] ++
    addIt (upload "c") 5000000 3 ++
    [.timer (.sleeping 5000000), .timer (.awake (some 0)), .tick 2000000,
      .timer (.seen (some 0) (some 5000000)), .tick 3000000] ++
    wakeUp 10000000 0 5000000 ++ .flush .locked :: wakeUp 10000000 0 5000000 ++
    finishFlush [upload "b", upload "a", upload "c"]

theorem submitted_once_uploadsWithRetry :
    ∃ s, (machine {}).run {} uploadsWithRetry = some s ∧
      s.pushed = [upload "b", upload "a", upload "c"] ∧ SubmittedOnce s := by
  have hend : ((machine {}).run {} uploadsWithRetry).map (fun s => (s.pushed, s.atRest)) =
      some ([upload "b", upload "a", upload "c"], true) := by decide +kernel
  obtain ⟨s, hrun, hfacts⟩ := Option.map_eq_some_iff.mp hend
  simp only [Prod.mk.injEq] at hfacts
  exact ⟨s, hrun, hfacts.1,
    (submitted_once {} 0 uploadsWithRetry s hrun (by decide +kernel)).2 hfacts.2⟩

/-- The second file is added while the first one is submitted. -/
def uploadInWindow : List Action :=
  addIt (upload "a") 0 1 ++ .tick 5000000 :: wakeUp 5000000 0 0 ++ .flush .locked ::
    addIt (upload "b") 5000000 2 ++ finishFlush [upload "a"] ++
    [.tick 5000000, .timer (.sleeping 10000000), .timer (.awake none),
      .timer (.seen none none)]

/-- Its keys are removed by the flush of the first file, and it is never submitted. -/
theorem not_always_submitted_once :
    ¬ ∀ (cfg : UploadBatchConfig) (as : List Action) (s : State),
      (machine cfg).run {} as = some s → s.atRest = true → SubmittedOnce s := by
  intro h
  have hend : ((machine {}).run {} uploadInWindow).map
      (fun s => (s.atRest, s.pushed, s.batches)) =
        some (true, [upload "a", upload "b"], [[upload "a"]]) := by decide +kernel
  obtain ⟨s, hrun, hfacts⟩ := Option.map_eq_some_iff.mp hend
  simp only [Prod.mk.injEq] at hfacts
  have honce := h {} uploadInWindow s hrun hfacts.1
  rw [SubmittedOnce, hfacts.2.1, hfacts.2.2] at honce
  exact absurd honce.length_eq (by decide)

/-- A submission that takes longer than the lock is there. -/
def slowSubmission : List Action :=
  addIt (upload "a") 0 1 ++ .tick 5000000 :: wakeUp 5000000 0 0 ++ .flush .locked ::
    .tick 60000000 :: addIt (upload "b") 65000000 2 ++ .tick 5000000 ::
    wakeUp 70000000 0 65000000 ++ .flush .locked :: finishFlush [upload "a", upload "b"] ++
    finishFlush [upload "a"]

/-- The first file is in both batches. -/
example : ((machine {}).run {} slowSubmission).map (fun s => (s.atRest, s.batches)) =
    some (true, [[upload "a", upload "b"], [upload "a"]]) := by decide +kernel

end NeuralHub.Feishu.UploadBatch
