/-
NeuralHub.Feishu.PlanCardsTheorems — whose plan a press on a card reaches.

The operator is always the owner on the card. The plan need not be the one
on the card: the runner that the chat has now is taken whatever its name,
a target without an owner is anybody's, and what `cancel_plan` finds when
nothing was rejected is cancelled whoever owns it. `Guarded` says that the
press meets none of these, and `press_reaches_own_iff` that they are all
there is.
-/
import NeuralHub.Feishu.PlanCards

namespace NeuralHub.Feishu

open NeuralHub.Lib NeuralHub.Plan

variable {w w' : World} {p : Payload} {a : CardAction}

/-! ## What is reached -/

/-- The plan is the one on the card, and the operator its owner. -/
def Own (p : Payload) (planName : List Char) (ownerId : String) : Prop :=
  planName = p.value.planName ∧ ownerId = p.value.ownerId ∧ p.openId = ownerId

/-- Between the two states only such plans were approved, rejected,
cancelled or sent a signal. -/
def ReachesOwn (p : Payload) (w w' : World) : Prop :=
  ∃ deeds, w'.deeds = w.deeds ++ deeds ∧ ∀ deed ∈ deeds, Own p deed.planName deed.ownerId

theorem reachesOwn_refl (p : Payload) (w : World) : ReachesOwn p w w :=
  ⟨[], by simp, by simp⟩

theorem reachesOwn_snoc_iff {deed : Deed} (h : w'.deeds = w.deeds ++ [deed]) :
    ReachesOwn p w w' ↔ Own p deed.planName deed.ownerId := by
  constructor
  · rintro ⟨deeds, hdeeds, hown⟩
    rw [h, List.append_cancel_left_eq] at hdeeds
    exact hown deed (hdeeds ▸ List.mem_singleton_self deed)
  · intro hown
    refine ⟨[deed], h, fun other hother => ?_⟩
    rw [List.mem_singleton.mp hother]
    exact hown

@[simp] theorem reachesOwn_call_iff {target : PlanRunner} {runner : Runner} {kind : DeedKind} :
    ReachesOwn p w (w.call target runner kind) ↔ Own p target.planName target.ownerId := by
  have h : (w.call target runner kind).deeds =
      w.deeds ++ [⟨target.planName, target.ownerId, kind⟩] := rfl
  exact reachesOwn_snoc_iff h

@[simp] theorem reachesOwn_request_iff {state : PlanState} {signal : PlanControlSignal} :
    ReachesOwn p w (w.request state signal) ↔ Own p state.planName state.ownerId := by
  have h : (w.request state signal).deeds =
      w.deeds ++ [⟨state.planName, state.ownerId, .signal state.sessionId signal⟩] := rfl
  exact reachesOwn_snoc_iff h

/-! ## The newest checkpoint -/

/-- The newest checkpoint of the chat can still be decided on and is of this plan. -/
def Offered (w : World) (chatId planName : List Char) (state : PlanState) : Prop :=
  loadLatest w.checkpoints (sessionOf chatId) = .ok (some state) ∧
    state.phase.isTerminal = false ∧ state.planName = planName

theorem Offered.unique {chatId planName : List Char} {state other : PlanState}
    (h : Offered w chatId planName state) (hother : Offered w chatId planName other) :
    other = state := by
  have heq := h.1.symm.trans hother.1
  cases heq
  rfl

/-- No id of the chat's session can be a part of a file name; the look-up raises. -/
def Unreadable (w : World) (chatId : List Char) : Prop :=
  ∃ error, loadLatest w.checkpoints (sessionOf chatId) = .error error

theorem Unreadable.not_offered {chatId planName : List Char} {state : PlanState}
    (h : Unreadable w chatId) : ¬ Offered w chatId planName state := by
  obtain ⟨error, herror⟩ := h
  intro hoffered
  rw [hoffered.1] at herror
  cases herror

/-- The decision raises, or finds no checkpoint to decide on, or decides on the one offered. -/
theorem requestCheckpointDecision_cases {chatId planName : List Char} (hname : planName ≠ [])
    (w : World) (ownerId : String) (action : Decision) :
    (Unreadable w chatId ∧
      ∃ error, requestCheckpointDecision w chatId planName ownerId action = .error error) ∨
    ((∀ state, Offered w chatId planName state → ownerMatches state.ownerId ownerId = false) ∧
      ¬ Unreadable w chatId ∧
      requestCheckpointDecision w chatId planName ownerId action = .ok (w, false)) ∨
    ∃ state, Offered w chatId planName state ∧ ownerMatches state.ownerId ownerId = true ∧
      requestCheckpointDecision w chatId planName ownerId action =
        .ok (decideCheckpoint w state action) := by
  cases hload : loadLatest w.checkpoints (sessionOf chatId) with
  | error error =>
    refine .inl ⟨⟨error, hload⟩, error, ?_⟩
    rw [requestCheckpointDecision, hload]
    rfl
  | ok latest =>
    have hreadable : ¬ Unreadable w chatId := by
      rintro ⟨error, herror⟩
      rw [hload] at herror
      cases herror
    refine .inr ?_
    cases latest with
    | none =>
      refine .inl ⟨fun state hstate => ?_, hreadable, ?_⟩
      · rw [Offered, hload] at hstate
        cases hstate.1
      · rw [requestCheckpointDecision, hload]
        rfl
    | some state =>
      have hrun : requestCheckpointDecision w chatId planName ownerId action =
          if state.phase.isTerminal = true then .ok (w, false)
          else if planName ≠ [] ∧ state.planName ≠ planName then .ok (w, false)
          else if ownerId ≠ "" ∧ state.ownerId ≠ "" ∧ state.ownerId ≠ ownerId then .ok (w, false)
          else .ok (decideCheckpoint w state action) := by
        rw [requestCheckpointDecision, hload]
        simp only [bind, Except.bind, pure, Except.pure]
      have honly : ∀ other, Offered w chatId planName other →
          other = state ∧ state.phase.isTerminal = false ∧ state.planName = planName := by
        intro other hother
        have heq : state = other := by simpa [hload] using hother.1
        subst heq
        exact ⟨rfl, hother.2⟩
      rw [hrun]
      split_ifs with hterminal hplan howner
      · refine .inl ⟨fun other hother => ?_, hreadable, rfl⟩
        simp [(honly other hother).2.1] at hterminal
      · refine .inl ⟨fun other hother => ?_, hreadable, rfl⟩
        exact absurd (honly other hother).2.2 hplan.2
      · refine .inl ⟨fun other hother => ?_, hreadable, rfl⟩
        rw [(honly other hother).1]
        simp [ownerMatches, howner]
      · refine .inr ⟨state, ⟨hload, by simpa using hterminal, ?_⟩, ?_, rfl⟩
        · by_contra hne
          exact hplan ⟨hname, hne⟩
        · by_cases howner' : ownerId = "" <;> by_cases hstate : state.ownerId = "" <;>
            simp_all [ownerMatches]

/-- Only an approval of a plan that does not wait for one is without effect. -/
theorem reachesOwn_decideCheckpoint_iff {state : PlanState} {action : Decision} :
    ReachesOwn p w (decideCheckpoint w state action).1 ↔
      ((action = .approve → awaitsApproval state.phase = true) →
        Own p state.planName state.ownerId) := by
  cases action with
  | approve =>
    rcases hphase : state.phase with _ | _ | _ | _ | _ | _ | _ | _ | _ | _ | _ <;>
      simp [decideCheckpoint, awaitsApproval, hphase, reachesOwn_refl]
  | reject =>
    rw [decideCheckpoint]
    split <;> simp
  | stop => simp [decideCheckpoint]

/-! ## When a press is guarded -/

/-- No checkpoint without an owner is decided on. -/
def CheckpointOwned (a : CardAction) (w : World) (p : Payload) : Prop :=
  ∀ state, Offered w p.chatId p.value.planName state →
    (a = .planApprove → awaitsApproval state.phase = true) → state.ownerId ≠ ""

/-- The press is refused; or the runner that answers is the one on the
card and has an owner; or the runner is somebody else's, or there is none,
and the checkpoint that is decided on instead has an owner, and behind a
cancel there is nothing left to be cancelled without a look at the owner. -/
def Guarded (a : CardAction) (w : World) (p : Payload) : Prop :=
  p.openId ≠ p.value.ownerId ∨
  match findPlanRunner w.planRunners p.chatId p.value.planName with
  | some target =>
    if ownerMatches target.ownerId p.value.ownerId then
      target.planName = p.value.planName ∧ target.ownerId ≠ ""
    else CheckpointOwned a w p ∧ (a = .planCancel → target.runner.phase.isTerminal = true ∨
      Unreadable w p.chatId ∨
      ∃ state, Offered w p.chatId p.value.planName state ∧ state.ownerId = p.value.ownerId)
  | none => CheckpointOwned a w p ∧ (a = .planCancel →
      ∀ state, Offered w p.chatId p.value.planName state → state.ownerId = p.value.ownerId)

/-! ## A press -/

theorem press_of_refused (howner : p.value.ownerId ≠ "") (hopen : p.openId ≠ "")
    (h : p.openId ≠ p.value.ownerId) : press a w p = w := by
  have hrefused : operatorAllowed p p.value.ownerId = false := by
    simp [operatorAllowed, howner, hopen, h]
  cases a <;> simp [press, handle, handlePlanApprove, handlePlanCancel, handlePlanAdjust,
    hrefused, World.after]

theorem operatorAllowed_of_eq (h : p.openId = p.value.ownerId) :
    operatorAllowed p p.value.ownerId = true := by simp [operatorAllowed, h]

theorem press_planApprove (h : p.openId = p.value.ownerId) :
    press .planApprove w p =
      w.after (approvePlanDecision w p.chatId p.value.planName p.value.ownerId) := by
  rw [press, handle, handlePlanApprove, operatorAllowed_of_eq h]
  rcases approvePlanDecision w p.chatId p.value.planName p.value.ownerId with error | ⟨w', b⟩
  · rfl
  · rfl

theorem press_planAdjust (h : p.openId = p.value.ownerId) :
    press .planAdjust w p =
      w.after (rejectPlanDecision w p.chatId p.value.planName p.value.ownerId) := by
  rw [press, handle, handlePlanAdjust, operatorAllowed_of_eq h]
  rcases rejectPlanDecision w p.chatId p.value.planName p.value.ownerId with error | ⟨w', b⟩
  · rfl
  · rfl

theorem press_planCancel (h : p.openId = p.value.ownerId) :
    press .planCancel w p =
      match rejectPlanDecision w p.chatId p.value.planName p.value.ownerId with
      | .error _ => w
      | .ok (w', true) => w'
      | .ok (w', false) => w.after (cancelPlanDecision w' p.chatId p.value.planName) := by
  rw [press, handle, handlePlanCancel, operatorAllowed_of_eq h]
  rcases rejectPlanDecision w p.chatId p.value.planName p.value.ownerId with error | ⟨w', _ | _⟩
  · rfl
  · simp only [Bool.not_true, Bool.false_eq_true, if_false, bind, Except.bind]
    rcases cancelPlanDecision w' p.chatId p.value.planName with error | ⟨w'', b⟩ <;> rfl
  · rfl

/-! ## What a press leaves alone -/

/-- A runner or a control slot that is not as it was is one that a deed names. -/
structure Logged (w w' : World) (deeds : List Deed) : Prop where
  deeds_eq : w'.deeds = w.deeds ++ deeds
  checkpoints_eq : w'.checkpoints = w.checkpoints
  runners : ∀ chatId target, w.planRunners.find chatId = some target →
    w'.planRunners.find chatId = some target ∨
      ∃ deed ∈ deeds, deed.planName = target.planName ∧ deed.ownerId = target.ownerId
  controls : ∀ sessionId, w'.controls sessionId = w.controls sessionId ∨
    ∃ deed ∈ deeds, deed.kind = .signal sessionId (w'.controls sessionId)

theorem Logged.refl (w : World) : Logged w w [] where
  deeds_eq := by simp
  checkpoints_eq := rfl
  runners := fun _ _ h => .inl h
  controls := fun _ => .inl rfl

theorem logged_request (w : World) (state : PlanState) (signal : PlanControlSignal) :
    Logged w (w.request state signal)
      [⟨state.planName, state.ownerId, .signal state.sessionId signal⟩] where
  deeds_eq := rfl
  checkpoints_eq := rfl
  runners := fun _ _ h => .inl h
  controls := by
    intro sessionId
    by_cases h : sessionId = state.sessionId
    · right
      simp [World.request, h]
    · left
      simp [World.request, h]

theorem logged_call {target : PlanRunner} (h : w.planRunners.find target.chatId = some target)
    (runner : Runner) (kind : DeedKind) :
    Logged w (w.call target runner kind) [⟨target.planName, target.ownerId, kind⟩] where
  deeds_eq := rfl
  checkpoints_eq := rfl
  runners := by
    intro chatId other hother
    by_cases hchat : chatId = target.chatId
    · subst hchat
      rw [h] at hother
      cases hother
      simp
    · left
      have hkept := Table.find_put_of_ne w.planRunners (x := { target with runner }) hchat
      exact hkept.trans hother
  controls := fun _ => .inl rfl

theorem find_of_findPlanRunner {runners : Table PlanRunner.chatId} {chatId planName : List Char}
    {target : PlanRunner} (h : findPlanRunner runners chatId planName = some target) :
    runners.find target.chatId = some target := by
  unfold findPlanRunner at h
  cases hfind : runners.find chatId with
  | some found =>
    rw [hfind] at h
    cases h
    rw [Table.key_of_find hfind]
    exact hfind
  | none =>
    rw [hfind] at h
    dsimp only at h
    split at h
    · cases h
    · exact Table.find_of_mem (List.mem_of_find?_eq_some h)

theorem logged_decideCheckpoint (w : World) (state : PlanState) (action : Decision) :
    ∃ deeds, Logged w (decideCheckpoint w state action).1 deeds := by
  cases action with
  | approve =>
    rw [decideCheckpoint]
    split
    · exact ⟨_, .refl w⟩
    · split
      · exact ⟨_, logged_request ..⟩
      · exact ⟨_, .refl w⟩
  | reject =>
    rw [decideCheckpoint]
    split
    · exact ⟨_, logged_request ..⟩
    · exact ⟨_, logged_request ..⟩
  | stop => exact ⟨_, logged_request ..⟩

theorem Logged.trans {w'' : World} {deeds deeds' : List Deed} (h : Logged w w' deeds)
    (h' : Logged w' w'' deeds') : Logged w w'' (deeds ++ deeds') where
  deeds_eq := by rw [h'.deeds_eq, h.deeds_eq, List.append_assoc]
  checkpoints_eq := h'.checkpoints_eq.trans h.checkpoints_eq
  runners := by
    intro chatId target htarget
    rcases h.runners chatId target htarget with hkept | ⟨deed, hdeed, hnames⟩
    · rcases h'.runners chatId target hkept with hkept' | ⟨deed, hdeed, hnames⟩
      · exact .inl hkept'
      · exact .inr ⟨deed, List.mem_append_right deeds hdeed, hnames⟩
    · exact .inr ⟨deed, List.mem_append_left deeds' hdeed, hnames⟩
  controls := by
    intro sessionId
    rcases h'.controls sessionId with hkept | ⟨deed, hdeed, hsignal⟩
    · rw [hkept]
      rcases h.controls sessionId with hkept' | ⟨deed, hdeed, hsignal⟩
      · exact .inl hkept'
      · exact .inr ⟨deed, List.mem_append_left deeds' hdeed, hsignal⟩
    · exact .inr ⟨deed, List.mem_append_right deeds hdeed, hsignal⟩

theorem logged_requestCheckpointDecision (w : World) (chatId planName : List Char)
    (ownerId : String) (action : Decision) :
    ∃ deeds, Logged w (w.after (requestCheckpointDecision w chatId planName ownerId action))
      deeds := by
  rw [requestCheckpointDecision]
  cases hload : loadLatest w.checkpoints (sessionOf chatId) with
  | error error => exact ⟨[], .refl w⟩
  | ok latest =>
    cases latest with
    | none => exact ⟨[], .refl w⟩
    | some state =>
      simp only [bind, Except.bind, pure, Except.pure]
      split_ifs
      · exact ⟨[], .refl w⟩
      · exact ⟨[], .refl w⟩
      · exact ⟨[], .refl w⟩
      · exact logged_decideCheckpoint w state action

theorem logged_planDecision (change : Runner → Runner) (kind : DeedKind) (action : Decision)
    (w : World) (chatId planName : List Char) (ownerId : String) :
    ∃ deeds, Logged w (w.after (planDecision change kind action w chatId planName ownerId))
      deeds := by
  rw [planDecision]
  cases hfind : findPlanRunner w.planRunners chatId planName with
  | none => exact logged_requestCheckpointDecision ..
  | some target =>
    dsimp only
    split
    · exact ⟨_, logged_call (find_of_findPlanRunner hfind) ..⟩
    · exact logged_requestCheckpointDecision ..

theorem logged_cancelPlanDecision (w : World) (chatId planName : List Char) :
    ∃ deeds, Logged w (w.after (cancelPlanDecision w chatId planName)) deeds := by
  rw [cancelPlanDecision]
  cases hfind : findPlanRunner w.planRunners chatId planName with
  | none => exact logged_requestCheckpointDecision ..
  | some target =>
    dsimp only
    split
    · exact ⟨[], .refl w⟩
    · exact ⟨_, logged_call (find_of_findPlanRunner hfind) ..⟩

/-- The history of deeds misses nothing that a press of the owner changes. -/
theorem press_logged (a : CardAction) (w : World) (h : p.openId = p.value.ownerId) :
    ∃ deeds, Logged w (press a w p) deeds := by
  cases a with
  | planApprove =>
    rw [press_planApprove h]
    exact logged_planDecision ..
  | planAdjust =>
    rw [press_planAdjust h]
    exact logged_planDecision ..
  | planCancel =>
    rw [press_planCancel h]
    have hreject : ∃ deeds, Logged w (w.after (rejectPlanDecision w p.chatId p.value.planName
        p.value.ownerId)) deeds := logged_planDecision ..
    rcases hrun : rejectPlanDecision w p.chatId p.value.planName p.value.ownerId with
      error | ⟨w', _ | _⟩
    · exact ⟨[], .refl w⟩
    · rw [hrun] at hreject
      obtain ⟨deeds, hdeeds⟩ := hreject
      obtain ⟨deeds', hdeeds'⟩ := logged_cancelPlanDecision w' p.chatId p.value.planName
      dsimp only
      rcases hcancel : cancelPlanDecision w' p.chatId p.value.planName with error | ⟨w'', b⟩
      · exact ⟨[], .refl w⟩
      · rw [hcancel] at hdeeds'
        exact ⟨deeds ++ deeds', hdeeds.trans hdeeds'⟩
    · rw [hrun] at hreject
      exact hreject

/-! ## The condition -/

theorem own_iff (h : p.openId = p.value.ownerId) {planName : List Char} {ownerId : String} :
    Own p planName ownerId ↔ planName = p.value.planName ∧ ownerId = p.value.ownerId := by
  constructor
  · rintro ⟨hplan, howner, -⟩
    exact ⟨hplan, howner⟩
  · rintro ⟨hplan, howner⟩
    exact ⟨hplan, howner, h.trans howner.symm⟩

/-- A target that passes for an owner's is the owner's, unless it has none. -/
theorem eq_of_ownerMatches_iff {actual ownerId : String} (h : ownerId ≠ "") :
    (ownerMatches actual ownerId = true → actual = ownerId) ↔ actual ≠ "" := by
  constructor
  · intro hmatches hempty
    have heq := hmatches (by simp [ownerMatches, hempty])
    exact h (heq ▸ hempty)
  · intro hne hmatches
    simpa [ownerMatches, h, hne] using hmatches

theorem reachesOwn_request (h : p.openId = p.value.ownerId) (hname : p.value.planName ≠ [])
    (ownerId : String) (action : Decision) :
    ReachesOwn p w
        (w.after (requestCheckpointDecision w p.chatId p.value.planName ownerId action)) ↔
      ∀ state, Offered w p.chatId p.value.planName state →
        (action = .approve → awaitsApproval state.phase = true) →
        ownerMatches state.ownerId ownerId = true → state.ownerId = p.value.ownerId := by
  rcases requestCheckpointDecision_cases hname w ownerId action with
    ⟨hunreadable, error, hrun⟩ | ⟨hnone, -, hrun⟩ | ⟨state, hoffered, hmatches, hrun⟩
  · rw [hrun]
    exact iff_of_true (reachesOwn_refl p w) fun state hstate =>
      absurd hstate hunreadable.not_offered
  · rw [hrun]
    refine iff_of_true (reachesOwn_refl p w) fun state hstate _ hmatches => ?_
    rw [hnone state hstate] at hmatches
    cases hmatches
  · rw [hrun]
    show ReachesOwn p w (decideCheckpoint w state action).1 ↔ _
    rw [reachesOwn_decideCheckpoint_iff]
    simp only [own_iff h, hoffered.2.2, true_and]
    constructor
    · intro hown other hother haction hmatches'
      rw [hoffered.unique hother] at haction ⊢
      exact hown haction
    · intro hall haction
      exact hall state hoffered haction hmatches

theorem reachesOwn_planDecision (h : p.openId = p.value.ownerId) (hname : p.value.planName ≠ [])
    (howner : p.value.ownerId ≠ "") (change : Runner → Runner) (kind : DeedKind)
    (action : Decision) :
    ReachesOwn p w (w.after (planDecision change kind action w p.chatId p.value.planName
        p.value.ownerId)) ↔
      match findPlanRunner w.planRunners p.chatId p.value.planName with
      | some target =>
        if ownerMatches target.ownerId p.value.ownerId then
          target.planName = p.value.planName ∧ target.ownerId ≠ ""
        else ∀ state, Offered w p.chatId p.value.planName state →
          (action = .approve → awaitsApproval state.phase = true) → state.ownerId ≠ ""
      | none => ∀ state, Offered w p.chatId p.value.planName state →
          (action = .approve → awaitsApproval state.phase = true) → state.ownerId ≠ "" := by
  have hcheckpoint := reachesOwn_request (w := w) h hname p.value.ownerId action
  simp only [eq_of_ownerMatches_iff howner] at hcheckpoint
  rw [planDecision]
  cases hfind : findPlanRunner w.planRunners p.chatId p.value.planName with
  | none => exact hcheckpoint
  | some target =>
    dsimp only
    split
    · rename_i hmatches
      show ReachesOwn p w (w.call target (change target.runner) kind) ↔ _
      rw [reachesOwn_call_iff, own_iff h, ← eq_of_ownerMatches_iff howner]
      simp [hmatches]
    · exact hcheckpoint

/-- A checkpoint that is decided on ends the press. -/
theorem decideCheckpoint_reject (h : p.openId = p.value.ownerId) {state : PlanState}
    (hoffered : Offered w p.chatId p.value.planName state) :
    ∃ w', decideCheckpoint w state .reject = (w', true) ∧
      (ReachesOwn p w w' ↔ state.ownerId = p.value.ownerId) := by
  have hreach : ReachesOwn p w (decideCheckpoint w state .reject).1 ↔ _ :=
    reachesOwn_decideCheckpoint_iff
  rw [own_iff h, and_iff_right hoffered.2.2] at hreach
  refine ⟨_, Prod.ext rfl ?_, by simpa using hreach⟩
  rw [decideCheckpoint]
  split <;> rfl

/-- Behind a rejection that found nothing, `cancel_plan` does not look at the owner. -/
theorem reachesOwn_planCancel (h : p.openId = p.value.ownerId) (hname : p.value.planName ≠ [])
    (howner : p.value.ownerId ≠ "") :
    ReachesOwn p w (press .planCancel w p) ↔ Guarded .planCancel w p := by
  have hmatches {actual : String} :
      (ownerMatches actual p.value.ownerId = true → actual = p.value.ownerId) ↔ actual ≠ "" :=
    eq_of_ownerMatches_iff howner
  rw [press_planCancel h, Guarded, or_iff_right (not_not.mpr h), rejectPlanDecision, planDecision]
  cases hfind : findPlanRunner w.planRunners p.chatId p.value.planName with
  | none =>
    dsimp only
    rcases requestCheckpointDecision_cases hname w p.value.ownerId .reject with
      ⟨hunreadable, error, hrun⟩ | ⟨hnone, -, hrun⟩ | ⟨state, hoffered, -, hrun⟩
    · rw [hrun]
      exact iff_of_true (reachesOwn_refl p w)
        ⟨fun state hstate => absurd hstate hunreadable.not_offered,
          fun _ state hstate => absurd hstate hunreadable.not_offered⟩
    · rw [hrun]
      dsimp only
      rw [cancelPlanDecision, hfind]
      show ReachesOwn p w (w.after (requestCheckpointDecision w _ _ "" .stop)) ↔ _
      rw [reachesOwn_request h hname]
      constructor
      · intro hall
        refine ⟨fun state hstate _ hempty => ?_,
          fun _ state hstate => hall state hstate (by simp) (by simp [ownerMatches])⟩
        have hmatch := hnone state hstate
        simp [ownerMatches, hempty] at hmatch
      · rintro ⟨-, hall⟩ state hstate - -
        exact hall rfl state hstate
    · obtain ⟨w', hw', hreach⟩ := decideCheckpoint_reject h hoffered
      rw [hrun, hw']
      dsimp only
      rw [hreach]
      constructor
      · intro hown
        refine ⟨fun other hother _ => ?_, fun _ other hother => ?_⟩
        · rw [hoffered.unique hother, hown]
          exact howner
        · rw [hoffered.unique hother]
          exact hown
      · rintro ⟨-, hall⟩
        exact hall rfl state hoffered
  | some target =>
    dsimp only
    by_cases hmatch : ownerMatches target.ownerId p.value.ownerId = true
    · rw [if_pos hmatch, if_pos hmatch]
      show ReachesOwn p w (w.call target target.runner.reject .reject) ↔ _
      rw [reachesOwn_call_iff, own_iff h, ← hmatches]
      simp [hmatch]
    · rw [if_neg hmatch, if_neg hmatch]
      rcases requestCheckpointDecision_cases hname w p.value.ownerId .reject with
        ⟨hunreadable, error, hrun⟩ | ⟨hnone, hreadable, hrun⟩ | ⟨state, hoffered, hdecided, hrun⟩
      · rw [hrun]
        exact iff_of_true (reachesOwn_refl p w)
          ⟨fun state hstate => absurd hstate hunreadable.not_offered,
            fun _ => .inr (.inl hunreadable)⟩
      · rw [hrun]
        dsimp only
        rw [cancelPlanDecision, hfind]
        dsimp only
        have howned : CheckpointOwned .planCancel w p := by
          intro state hstate _ hempty
          have hmatch := hnone state hstate
          simp [ownerMatches, hempty] at hmatch
        split
        · rename_i hterminal
          exact iff_of_true (reachesOwn_refl p w) ⟨howned, fun _ => .inl hterminal⟩
        · rename_i hlive
          show ReachesOwn p w (w.call target target.runner.cancel .cancel) ↔ _
          rw [reachesOwn_call_iff, own_iff h]
          refine iff_of_false (fun hown => ?_) (fun hguarded => ?_)
          · exact hmatch (by simp [ownerMatches, hown.2])
          · rcases hguarded.2 rfl with hterminal | hunreadable | ⟨state, hstate, heq⟩
            · exact hlive hterminal
            · exact hreadable hunreadable
            · have hnot := hnone state hstate
              simp [ownerMatches, heq] at hnot
      · obtain ⟨w', hw', hreach⟩ := decideCheckpoint_reject h hoffered
        rw [hrun, hw']
        dsimp only
        rw [hreach]
        constructor
        · intro hown
          refine ⟨fun other hother _ => ?_, fun _ => .inr (.inr ⟨state, hoffered, hown⟩)⟩
          rw [hoffered.unique hother, hown]
          exact howner
        · rintro ⟨howned, -⟩
          exact hmatches.mpr (howned state hoffered (by simp)) hdecided

/-- **A press reaches only the plan on the card, and only for its owner,
exactly when it is guarded.** -/
theorem press_reaches_own_iff (a : CardAction) (w : World) (p : Payload)
    (hname : p.value.planName ≠ []) (howner : p.value.ownerId ≠ "") (hopen : p.openId ≠ "") :
    ReachesOwn p w (press a w p) ↔ Guarded a w p := by
  by_cases h : p.openId = p.value.ownerId
  · rw [Guarded, or_iff_right (not_not.mpr h)]
    cases a with
    | planApprove =>
      rw [press_planApprove h, approvePlanDecision, reachesOwn_planDecision h hname howner]
      simp [CheckpointOwned]
    | planAdjust =>
      rw [press_planAdjust h, rejectPlanDecision, reachesOwn_planDecision h hname howner]
      simp [CheckpointOwned]
    | planCancel => simpa [Guarded, h] using reachesOwn_planCancel (w := w) h hname howner
  · exact iff_of_true (press_of_refused howner hopen h ▸ reachesOwn_refl p w) (.inl h)

/-- The card of a plan that has ended, and the chat has started another one since. -/
def staleCard : Payload where
  openId := "ou_1"
  value := ⟨"p1".toList, "oc_1".toList, "ou_1"⟩

def successorRuns : World where
  planRunners := ⟨[{ chatId := "oc_1".toList, planName := "p2".toList, ownerId := "ou_1" }],
    by decide⟩
  checkpoints := .empty

/-- The old card approves the new plan. -/
theorem not_press_reaches_own : ¬ ∀ (a : CardAction) (w : World) (p : Payload),
    p.value.planName ≠ [] → p.value.ownerId ≠ "" → p.openId ≠ "" →
      ReachesOwn p w (press a w p) := by
  intro hall
  have hreach := hall .planApprove successorRuns staleCard (by decide) (by decide) (by decide)
  have hdeeds : (press .planApprove successorRuns staleCard).deeds =
      successorRuns.deeds ++ [⟨"p2".toList, "ou_1", .approve⟩] := by decide
  rw [reachesOwn_snoc_iff hdeeds] at hreach
  exact absurd hreach.1 (by decide)

/-- The card of the new plan. -/
def currentCard : Payload where
  openId := "ou_1"
  value := ⟨"p2".toList, "oc_1".toList, "ou_1"⟩

theorem current_card_reaches_own :
    ReachesOwn currentCard successorRuns (press .planCancel successorRuns currentCard) := by
  refine (press_reaches_own_iff .planCancel successorRuns currentCard (by decide) (by decide)
    (by decide)).mpr (.inr ?_)
  show "p2".toList = "p2".toList ∧ "ou_1" ≠ ""
  decide

end NeuralHub.Feishu
