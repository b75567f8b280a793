/-
NeuralHub.Proxies.ChainSchedulerTheorems — every switch of the scheduler
is justified and spaced.

`Justified` says what must hold where a round asks for a switch. Its part
about the cooldown speaks of the switches that replaced a current node:
`_switch` does not record the first choice, made while no node is known,
and a switch may follow it at once (`not_spaced_after_first_choice`).

The cooldown is read off the history, which has the last 50 of those
switches (`history_stateAfter`). As the times do not decrease, a history
without a recent entry has lost no recent entry.
-/
import NeuralHub.Lib.Recency
import NeuralHub.Proxies.ChainScheduler
import NeuralHub.Proxies.OverlayRuns

namespace NeuralHub.Proxies

open NeuralHub.Lib

/-! ## The fastest node -/

theorem fastest_eq_none {items : List (String × Int)} (h : fastest items = none) : items = [] := by
  cases items with
  | nil => rfl
  | cons item rest =>
    rw [fastest] at h
    split at h
    · cases h
    · split at h
      · cases h
      · cases h

theorem fastest_spec {items : List (String × Int)} {best : String × Int}
    (h : fastest items = some best) : best ∈ items ∧ ∀ item ∈ items, best.2 ≤ item.2 := by
  induction items generalizing best with
  | nil => cases h
  | cons item rest ih =>
    rw [fastest] at h
    split at h
    · next hrest =>
      cases h
      rw [fastest_eq_none hrest]
      exact ⟨List.mem_cons_self, fun x hx => List.mem_singleton.mp hx ▸ Int.le_refl _⟩
    · next least hrest =>
      obtain ⟨hmem, hle⟩ := ih hrest
      split at h
      · next hfirst =>
        cases h
        exact ⟨List.mem_cons_self, List.forall_mem_cons.mpr
          ⟨Int.le_refl _, fun x hx => Int.le_trans hfirst (hle x hx)⟩⟩
      · next hfirst =>
        cases h
        exact ⟨List.mem_cons_of_mem _ hmem, List.forall_mem_cons.mpr
          ⟨Int.le_of_lt (Int.lt_of_not_ge hfirst), hle⟩⟩

def delayOf (results : Delays) (node : String) : Int := (results.get node).getD 0

/-- A node that answers, and none that answers is faster. -/
def IsFastest (results : Delays) (node : String) : Prop :=
  0 < delayOf results node ∧
    ∀ other, 0 < delayOf results other → delayOf results node ≤ delayOf results other

theorem mem_alive {results : Delays} {item : String × Int} :
    item ∈ alive results ↔ results.get item.1 = some item.2 ∧ 0 < item.2 := by
  rw [alive, List.mem_filter, decide_eq_true_eq, Dict.get_eq_some_iff]

theorem delayOf_of_get {results : Delays} {node : String} {delay : Int}
    (h : results.get node = some delay) : delayOf results node = delay := by
  rw [delayOf, h, Option.getD_some]

theorem mem_alive_of_delayOf {results : Delays} {node : String}
    (h : 0 < delayOf results node) : (node, delayOf results node) ∈ alive results := by
  rw [mem_alive]
  refine ⟨?_, h⟩
  unfold delayOf at h ⊢
  cases hget : results.get node with
  | none =>
    rw [hget] at h
    exact absurd h (Int.lt_irrefl 0)
  | some delay => rfl

theorem findBestAlive_spec {results : Delays} (h : (findBestAlive results).1 ≠ "") :
    delayOf results (findBestAlive results).1 = (findBestAlive results).2 ∧
      IsFastest results (findBestAlive results).1 := by
  unfold findBestAlive at h ⊢
  cases hbest : fastest (alive results) with
  | none =>
    rw [hbest] at h
    exact absurd rfl h
  | some best =>
    rw [Option.getD_some]
    obtain ⟨hmem, hleast⟩ := fastest_spec hbest
    obtain ⟨hget, hpos⟩ := mem_alive.mp hmem
    have hdelay := delayOf_of_get hget
    refine ⟨hdelay, hdelay.symm ▸ hpos, fun other hother => ?_⟩
    rw [hdelay]
    exact hleast _ (mem_alive_of_delayOf hother)

/-! ## Why a round switches -/

section

variable (py : Texts) (settings : SchedulerSettings)

/-- The target is faster by more than the smallest improvement. -/
def Faster (results : Delays) (current target : String) : Prop :=
  delayOf results target + settings.minImprovement < delayOf results current

/-- The model has answered with this target. -/
def Answered (reply : Option (Dict Json)) (target : String) : Prop :=
  settings.llm = true ∧ ∃ payload ∈ reply, (py.parseLlmResponse payload).action = "switch" ∧
    (py.parseLlmResponse payload).target = target

/-- There was a reason to ask the model and no answer; the target is the fastest node. -/
def FallsBack (results : Delays) (history : List SwitchRecord) (reply : Option (Dict Json))
    (now : Int) (current target : String) : Prop :=
  (settings.llm = true → reply = none) ∧
    shouldTriggerLlm current (delayOf results current) results history settings.minImprovement now
      ≠ "" ∧
    IsFastest results target

/-- What a decision to switch rests on. -/
structure DecidesFor (current : String) (results : Delays) (history : List SwitchRecord)
    (reply : Option (Dict Json)) (now : Int) (target : String) : Prop where
  positive : 0 < delayOf results target
  other : target ≠ current
  cooled : current ≠ "" → 0 < delayOf results current →
    isInCooldown history settings.switchCooldown now = false
  reason : current ≠ "" → 0 < delayOf results current →
    Faster settings results current target ∨ Answered py settings reply target ∨
      FallsBack settings results history reply now current target

end

variable {py : Texts} {settings : SchedulerSettings} {current : String} {results : Delays}
  {history : List SwitchRecord} {reply : Option (Dict Json)} {now : Int}

/-- The best node where the current one is not known or does not answer. -/
theorem decidesFor_best (hbest : (findBestAlive results).1 ≠ "")
    (h : current = "" ∨ delayOf results current ≤ 0) :
    DecidesFor py settings current results history reply now (findBestAlive results).1 := by
  obtain ⟨-, hpos, -⟩ := findBestAlive_spec hbest
  refine ⟨hpos, ?_, fun hne hanswers => ?_, fun hne hanswers => ?_⟩
  · rintro heq
    rcases h with hempty | hdelay
    · exact hbest (heq.trans hempty)
    · rw [heq] at hpos
      exact absurd hpos (Int.not_lt.mpr hdelay)
  · rcases h with hempty | hdelay
    · exact absurd hempty hne
    · exact absurd hanswers (Int.not_lt.mpr hdelay)
  · rcases h with hempty | hdelay
    · exact absurd hempty hne
    · exact absurd hanswers (Int.not_lt.mpr hdelay)

/-- The last branch: the model, or the fastest node in its place. -/
theorem decidesFor_llm (hcooled : isInCooldown history settings.switchCooldown now = false)
    (htrigger : shouldTriggerLlm current (delayOf results current) results history
      settings.minImprovement now ≠ "")
    (h : (py.decideByLlm settings.llm reply current (delayOf results current)
      results).shouldSwitch = true) :
    DecidesFor py settings current results history reply now
      (py.decideByLlm settings.llm reply current (delayOf results current) results).target := by
  unfold Texts.decideByLlm at h ⊢
  simp only at h ⊢
  split at h
  · next hreply =>
    unfold fallbackDecision at h ⊢
    split at h
    · next hbest =>
      rw [if_pos hbest]
      obtain ⟨-, hfastest⟩ := findBestAlive_spec hbest.1
      refine ⟨hfastest.1, hbest.2.1, fun _ _ => hcooled, fun _ _ => Or.inr (Or.inr ?_)⟩
      refine ⟨fun hllm => ?_, htrigger, hfastest⟩
      rw [if_pos hllm] at hreply
      exact hreply
    · cases h
  · next payload hreply =>
    split at h
    · next hswitch =>
      simp only [if_pos hswitch]
      refine ⟨hswitch.2.1, hswitch.2.2, fun _ _ => hcooled, fun _ _ => Or.inr (Or.inl ?_)⟩
      split at hreply
      · next hllm => exact ⟨hllm, payload, hreply, hswitch.1, rfl⟩
      · cases hreply
    · cases h

theorem decidesFor_of_decide
    (h : (py.decideSwitch settings current results history reply now).shouldSwitch = true) :
    DecidesFor py settings current results history reply now
      (py.decideSwitch settings current results history reply now).target := by
  unfold Texts.decideSwitch at h ⊢
  simp only at h ⊢
  by_cases hnone : results.entries = []
  · rw [if_pos hnone] at h
    cases h
  rw [if_neg hnone] at h ⊢
  by_cases hbest : (findBestAlive results).1 = ""
  · rw [if_pos hbest] at h
    cases h
  rw [if_neg hbest] at h ⊢
  by_cases hcurrent : current = ""
  · rw [if_pos hcurrent]
    exact decidesFor_best hbest (Or.inl hcurrent)
  rw [if_neg hcurrent] at h ⊢
  by_cases hmissing : results.get current = none
  · rw [if_pos hmissing]
    refine decidesFor_best hbest (Or.inr ?_)
    rw [delayOf, hmissing]
    exact Int.le_refl 0
  rw [if_neg hmissing] at h ⊢
  simp only [if_pos hcurrent] at h ⊢
  have hdelay : (results.get current).getD 0 = delayOf results current := rfl
  rw [hdelay] at h ⊢
  by_cases htimeout : delayOf results current ≤ 0
  · rw [if_pos htimeout]
    exact decidesFor_best hbest (Or.inr htimeout)
  rw [if_neg htimeout] at h ⊢
  by_cases hcool : isInCooldown history settings.switchCooldown now = true
  · rw [if_pos hcool] at h
    cases h
  rw [if_neg hcool] at h ⊢
  have hcooled := Bool.eq_false_iff.mpr hcool
  obtain ⟨hbestDelay, hfastest⟩ := findBestAlive_spec hbest
  by_cases hfaster : (findBestAlive results).1 ≠ current ∧
      settings.minImprovement < delayOf results current - (findBestAlive results).2
  · rw [if_pos hfaster]
    refine ⟨hfastest.1, hfaster.1, fun _ _ => hcooled, fun _ _ => Or.inl ?_⟩
    show delayOf results (findBestAlive results).1 + _ < _
    rw [hbestDelay]
    have := hfaster.2
    omega
  rw [if_neg hfaster] at h ⊢
  split at h
  · cases h
  · next htop =>
    split at h
    · cases h
    · next htrigger =>
      rw [if_neg htop, if_neg htrigger]
      exact decidesFor_llm hcooled htrigger h

/-! ## Runs -/

/-- The scheduler after some rounds. -/
def stateAfter (py : Texts) (settings : SchedulerSettings) (rounds : List Round) :
    ChainSchedulerState := rounds.foldl (py.testAndDecide settings) {}

/-- A switch that succeeded. -/
structure Success where
  time : Int
  fromNode : String
  toNode : String
  deriving DecidableEq, Repr

def success? (py : Texts) (settings : SchedulerSettings) (state : ChainSchedulerState)
    (round : Round) : Option Success :=
  if round.switched then
    (py.requested settings state round).map fun target =>
      ⟨round.recordedAt, currentIn state round, target⟩
  else none

def successesFrom (py : Texts) (settings : SchedulerSettings) (state : ChainSchedulerState) :
    List Round → List Success
  | [] => []
  | round :: rest =>
    (success? py settings state round).toList ++
      successesFrom py settings (py.testAndDecide settings state round) rest

/-- The switches that succeeded, the first one first. -/
def successes (py : Texts) (settings : SchedulerSettings) (rounds : List Round) : List Success :=
  successesFrom py settings {} rounds

/-- The node before the switch was known. -/
def Success.replaces (s : Success) : Bool := s.fromNode ≠ ""

/-- No clock goes backwards. -/
structure Timed (rounds : List Round) : Prop where
  within : ∀ round ∈ rounds, round.decidedAt ≤ round.recordedAt
  between : rounds.Pairwise fun earlier later => earlier.recordedAt ≤ later.decidedAt

theorem stateAfter_concat (py : Texts) (settings : SchedulerSettings) (rounds : List Round)
    (round : Round) : stateAfter py settings (rounds ++ [round]) =
      py.testAndDecide settings (stateAfter py settings rounds) round := by
  rw [stateAfter, List.foldl_append]
  rfl

theorem successesFrom_concat (rounds : List Round) (round : Round) (state : ChainSchedulerState) :
    successesFrom py settings state (rounds ++ [round]) =
      successesFrom py settings state rounds ++
        (success? py settings (rounds.foldl (py.testAndDecide settings) state) round).toList := by
  induction rounds generalizing state with
  | nil => exact List.append_nil _
  | cons first rest ih =>
    rw [List.cons_append, successesFrom, ih, successesFrom, List.append_assoc]
    rfl

/-- A round that asks for a switch has decided for it. -/
theorem decidesFor_of_requested {state : ChainSchedulerState} {round : Round} {target : String}
    (h : py.requested settings state round = some target) :
    DecidesFor py settings (currentIn state round) round.results state.history round.reply
      round.decidedAt target := by
  unfold Texts.requested at h
  simp only [Option.ite_none_right_eq_some, Option.some.injEq] at h
  obtain ⟨⟨hswitch, -⟩, rfl⟩ := h
  unfold Texts.decision at hswitch ⊢
  simp only at hswitch ⊢
  generalize (if isAllTimeout round.results = true then state.consecutiveAllTimeout + 1 else 0) =
    consecutive at hswitch ⊢
  split at hswitch
  · -- with no node that answers the model is asked for its reason only
    unfold Texts.decideAllTimeoutWithLlm at hswitch
    split at hswitch
    · cases hswitch
    · cases hswitch
  · next hrule =>
    rw [if_neg hrule]
    exact decidesFor_of_decide hswitch

/-! ## The history -/

theorem map_rtake {α β : Type} (f : α → β) (n : Nat) (l : List α) :
    (l.rtake n).map f = (l.map f).rtake n := by
  unfold List.rtake
  rw [List.map_drop, List.length_map]

/-- A round records the switch that succeeded, if it replaced a node. -/
theorem times_testAndDecide (state : ChainSchedulerState) (round : Round) :
    (py.testAndDecide settings state round).history.map SwitchRecord.time =
      match (success? py settings state round).filter Success.replaces with
      | some s => (state.history.map SwitchRecord.time ++ [s.time]).rtake 50
      | none => state.history.map SwitchRecord.time := by
  unfold Texts.testAndDecide success?
  simp only
  by_cases hswitch : (py.decision settings state round).shouldSwitch = true ∧
      (py.decision settings state round).target ≠ ""
  · have hrequested : py.requested settings state round =
        some (py.decision settings state round).target := if_pos hswitch
    have hother := (decidesFor_of_requested hrequested).other
    rw [if_pos hswitch, hrequested]
    by_cases hdone : round.switched = true
    · rw [if_pos hdone, if_pos hdone]
      unfold applySwitch
      simp only [Option.map_some]
      by_cases hknown : currentIn state round = ""
      · rw [if_neg (fun h => h.1 hknown), Option.filter_some_neg (by simp [Success.replaces, hknown])]
      · rw [if_pos ⟨hknown, hother.symm⟩,
          Option.filter_some_pos (by simp [Success.replaces, hknown])]
        simp only [recordSwitch]
        rw [map_rtake, List.map_append]
        rfl
    · rw [if_neg hdone, if_neg hdone]
      rfl
  · have hrequested : py.requested settings state round = none := if_neg hswitch
    rw [if_neg hswitch, hrequested, Option.map_none, ite_self]
    rfl

/-- The switches that replaced a node. -/
def replacements (py : Texts) (settings : SchedulerSettings) (rounds : List Round) :
    List Success := (successes py settings rounds).filter Success.replaces

theorem replacements_concat (rounds : List Round) (round : Round) :
    replacements py settings (rounds ++ [round]) = replacements py settings rounds ++
      ((success? py settings (stateAfter py settings rounds) round).filter
        Success.replaces).toList := by
  rw [replacements, successes, successesFrom_concat, List.filter_append]
  congr 1
  show List.filter _ (success? py settings (stateAfter py settings rounds) round).toList = _
  cases success? py settings (stateAfter py settings rounds) round with
  | none => rfl
  | some s =>
    cases h : s.replaces with
    | true => rw [Option.filter_some_pos h, Option.toList_some, List.filter_cons_of_pos h]; rfl
    | false =>
      have hnot : ¬s.replaces = true := Bool.eq_false_iff.mp h
      rw [Option.filter_some_neg h, Option.toList_some, List.filter_cons_of_neg hnot]
      rfl

/-- The history has the times of the last 50 replacements. -/
theorem history_stateAfter (rounds : List Round) :
    (stateAfter py settings rounds).history.map SwitchRecord.time =
      ((replacements py settings rounds).map Success.time).rtake 50 := by
  induction rounds using List.reverseRecOn with
  | nil => rfl
  | append_singleton rounds round ih =>
    rw [stateAfter_concat, times_testAndDecide, replacements_concat, List.map_append]
    split
    · next s hs =>
      rw [hs, ih, rtake_rtake_concat]
      rfl
    · next hs =>
      rw [hs, ih, Option.toList_none, List.map_nil, List.append_nil]

theorem times_successesFrom_sublist (rounds : List Round) (state : ChainSchedulerState) :
    ((successesFrom py settings state rounds).map Success.time).Sublist
      (rounds.map Round.recordedAt) := by
  induction rounds generalizing state with
  | nil => exact List.Sublist.refl []
  | cons round rest ih =>
    have hrest := ih (py.testAndDecide settings state round)
    rw [successesFrom, List.map_append, List.map_cons]
    cases h : success? py settings state round with
    | none => exact hrest.cons _
    | some s =>
      have htime : s.time = round.recordedAt := by
        unfold success? at h
        rw [Option.ite_none_right_eq_some, Option.map_eq_some_iff] at h
        obtain ⟨-, target, -, rfl⟩ := h
        rfl
      rw [Option.toList_some, List.map_singleton, htime]
      exact hrest.cons_cons _

/-- The replacements are in the order of their times. -/
theorem times_replacements (rounds : List Round) (h : Timed rounds) :
    ((replacements py settings rounds).map Success.time).Pairwise (· ≤ ·) := by
  have hrounds : (rounds.map Round.recordedAt).Pairwise (· ≤ ·) := by
    rw [List.pairwise_map]
    exact h.between.imp_of_mem fun _ hlater hle => Int.le_trans hle (h.within _ hlater)
  have hsub : (replacements py settings rounds).Sublist (successes py settings rounds) :=
    List.filter_sublist
  exact hrounds.sublist ((hsub.map Success.time).trans (times_successesFrom_sublist rounds {}))

theorem forall_lt_of_not_cooldown {cooldown : Int} (hcooldown : 0 < cooldown)
    (h : isInCooldown history cooldown now = false) :
    ∀ time ∈ history.map SwitchRecord.time, time < now - cooldown := by
  intro time htime
  obtain ⟨item, hitem, rfl⟩ := List.mem_map.mp htime
  rw [isInCooldown, if_neg (Int.not_le.mpr hcooldown), List.any_eq_false] at h
  have hnot := h item hitem
  rw [decide_eq_true_eq] at hnot
  exact Int.lt_of_not_ge hnot

/-! ## The result -/

/-- A request to switch after `earlier` successes: it goes to another node that answers;
and where the current node answers too, no node was replaced within the cooldown, and the
target is faster, or the model's answer, or the fastest in place of an answer. -/
structure Justified (py : Texts) (settings : SchedulerSettings) (earlier : List Success)
    (state : ChainSchedulerState) (round : Round) (target : String) : Prop where
  positive : 0 < delayOf round.results target
  other : target ≠ currentIn state round
  spaced : currentIn state round ≠ "" → 0 < delayOf round.results (currentIn state round) →
    0 < settings.switchCooldown →
      ∀ s ∈ earlier, s.fromNode ≠ "" → s.time < round.decidedAt - settings.switchCooldown
  reason : currentIn state round ≠ "" → 0 < delayOf round.results (currentIn state round) →
    Faster settings round.results (currentIn state round) target ∨
      Answered py settings round.reply target ∨
      FallsBack settings round.results state.history round.reply round.decidedAt
        (currentIn state round) target

/-- **Every switch is justified and spaced.** -/
theorem switches_justified (py : Texts) (settings : SchedulerSettings)
    (before : List Round) (round : Round) (after : List Round)
    (htimed : Timed (before ++ round :: after)) (target : String)
    (h : py.requested settings (stateAfter py settings before) round = some target) :
    Justified py settings (successes py settings before) (stateAfter py settings before) round
      target := by
  have hdecides := decidesFor_of_requested h
  refine ⟨hdecides.positive, hdecides.other, fun hknown hanswers hcooldown => ?_, hdecides.reason⟩
  have hbefore : Timed before :=
    ⟨fun r hr => htimed.within r (List.mem_append_left _ hr),
      (List.pairwise_append.mp htimed.between).1⟩
  have hrecent := forall_lt_of_not_cooldown hcooldown (hdecides.cooled hknown hanswers)
  rw [history_stateAfter] at hrecent
  have hall := forall_lt_of_rtake (by decide) (times_replacements before hbefore) hrecent
  intro s hs hreplaces
  exact hall s.time (List.mem_map_of_mem (List.mem_filter.mpr ⟨hs, decide_eq_true hreplaces⟩))

def delays (a b : Int) : Delays := (Dict.nil.set "A" a).set "B" b

/-- No node is known, and `A` is the fastest. -/
def firstRound : Round := ⟨delays 50 100, "", none, true, 0, 0⟩

/-- Ten seconds later `B` is faster. -/
def nextRound : Round := ⟨delays 100 20, "A", none, true, 10, 10⟩

/-- An hour later `A` is faster again. -/
def laterRound : Round := ⟨delays 20 100, "B", none, true, 3600, 3600⟩

theorem timed_rounds : Timed [firstRound, nextRound, laterRound] := ⟨by decide, by decide⟩

theorem switches_justified_laterRound :
    (∃ s ∈ successes plainTexts {} [firstRound, nextRound], s.fromNode = "A" ∧ s.time = 10) ∧
      Justified plainTexts {} (successes plainTexts {} [firstRound, nextRound])
        (stateAfter plainTexts {} [firstRound, nextRound]) laterRound "A" :=
  ⟨by decide +kernel, switches_justified plainTexts {} [firstRound, nextRound] laterRound []
    timed_rounds "A" (by decide +kernel)⟩

/-- The first choice does not start the cooldown. -/
theorem not_spaced_after_first_choice :
    ¬ ∀ (py : Texts) (settings : SchedulerSettings) (before : List Round) (round : Round)
      (after : List Round) (target : String), Timed (before ++ round :: after) →
      py.requested settings (stateAfter py settings before) round = some target →
      currentIn (stateAfter py settings before) round ≠ "" →
      0 < delayOf round.results (currentIn (stateAfter py settings before) round) →
      0 < settings.switchCooldown →
        ∀ s ∈ successes py settings before,
          s.time < round.decidedAt - settings.switchCooldown := by
  intro hclaim
  have hspaced := hclaim plainTexts {} [firstRound] nextRound [laterRound] "B" timed_rounds
    (by decide +kernel) (by decide +kernel) (by decide +kernel) (by decide)
  revert hspaced
  decide +kernel

end NeuralHub.Proxies
