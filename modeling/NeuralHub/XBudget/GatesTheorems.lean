/-
NeuralHub.XBudget.GatesTheorems — what the two gates keep.

`calls_within_budget`: the calls that are counted on a day and let through
are never more than the budget, for any number of processes and with answers
and whole commands lost at any point, as long as no increment comes more than
an hour behind the end of its day, when the counter may be gone. `Inv` is what
every step keeps: the calls let through are counted, and the counter of a day
expires an hour behind the day at the earliest.

`intervals_kept`: between two times at which the gate is set is the interval;
for this nothing is needed.
-/
import NeuralHub.Lib.Counts
import NeuralHub.XBudget.Gates

namespace NeuralHub.XBudget

open NeuralHub.Lib

/-! ## What a reply changes -/

variable {cfg : Config} {s t : State} {day : Int}

/-- Counted on this day and let through, or about to be. -/
def Point.takes (cfg : Config) (day : Int) : Point → Bool
  | .passed (some d) => d = day
  | .expiring d => d = day && decide (1 ≤ cfg.dailyBudget)
  | _ => false

/-- The days that a call has begun to count itself on. -/
def Point.day? : Point → Option Int
  | .incrementing day => some day
  | .expiring day => some day
  | _ => none

@[simp] theorem day?_incrementing : (Point.incrementing day).day? = some day := rfl
@[simp] theorem day?_expiring : (Point.expiring day).day? = some day := rfl
@[simp] theorem day?_degraded : Point.degraded.day? = none := rfl
@[simp] theorem takes_degraded : Point.degraded.takes cfg day = false := rfl
@[simp] theorem takes_expiring (d : Int) :
    (Point.expiring d).takes cfg day = (decide (d = day) && decide (1 ≤ cfg.dailyBudget)) := rfl
@[simp] theorem takes_incrementing (d : Int) :
    (Point.incrementing d).takes cfg day = false := rfl
@[simp] theorem takes_passed (d : Int) :
    (Point.passed (some d)).takes cfg day = decide (d = day) := rfl

theorem takes_decided (d : Int) (count : Nat) : (State.decided cfg d count).takes cfg day =
    (decide (d = day) && decide ((count : Int) ≤ cfg.dailyBudget)) := by
  unfold State.decided
  split
  · rename_i h
    simp [State.exhausted, Point.takes, h]
  · rename_i h
    simp [Int.not_lt.mp h]

theorem day?_decided (d : Int) (count : Nat) : (State.decided cfg d count).day? = none := by
  unfold State.decided
  split <;> rfl

/-! ## The counter -/

/-- What the counter of a day has come to, whether or not it is still alive. -/
def State.stored (s : State) (day : Int) : Nat := ((s.counters.find day).map (·.count)).getD 0

structure Inv (cfg : Config) (s : State) : Prop where
  expiry : ∀ day counter, s.counters.find day = some counter → ∀ time ∈ counter.expiresAt,
    (day + 1) * dayLength + grace ≤ time
  begun : ∀ point ∈ s.calls, ∀ day ∈ point.day?, day * dayLength ≤ s.now
  counted : ∀ day, s.calls.countP (Point.takes cfg day) ≤ s.stored day
  within : ∀ day, (s.calls.countP (Point.takes cfg day) : Int) ≤ max cfg.dailyBudget 0

/-- A call goes on: it is let through only where the count went up, within the budget. -/
theorem Inv.set {call : Nat} {old new : Point} (hs : Inv cfg s)
    (hold : s.calls[call]? = some old) (hcalls : t.calls = s.calls.set call new)
    (hnow : t.now = s.now) (hday : ∀ day ∈ new.day?, day * dayLength ≤ s.now)
    (hexpiry : ∀ day counter, t.counters.find day = some counter → ∀ time ∈ counter.expiresAt,
      (day + 1) * dayLength + grace ≤ time)
    (hstored : ∀ day, s.stored day ≤ t.stored day)
    (htakes : ∀ day, new.takes cfg day = true → old.takes cfg day = true ∨
      (s.stored day < t.stored day ∧ (t.stored day : Int) ≤ cfg.dailyBudget)) : Inv cfg t where
  expiry := hexpiry
  begun point hmem day hpoint := by
    rw [hnow]
    rw [hcalls] at hmem
    rcases List.mem_or_eq_of_mem_set hmem with hmem | rfl
    · exact hs.begun point hmem day hpoint
    · exact hday day hpoint
  counted day := by
    have hcount := hs.counted day
    have hle := hstored day
    rw [hcalls]
    by_cases hgrows : s.stored day < t.stored day
    · have := countP_set_le_succ (Point.takes cfg day) hold new
      omega
    · have := countP_set_le_of_imp (p := Point.takes cfg day) hold
        fun hnew => (htakes day hnew).resolve_right fun h => hgrows h.1
      omega
  within day := by
    have hcount := hs.counted day
    have hwithin := hs.within day
    rw [hcalls]
    by_cases hgrows : s.stored day < t.stored day ∧ (t.stored day : Int) ≤ cfg.dailyBudget
    · have := countP_set_le_succ (Point.takes cfg day) hold new
      omega
    · have := countP_set_le_of_imp (p := Point.takes cfg day) hold
        fun hnew => (htakes day hnew).resolve_right hgrows
      omega

/-- While no increment comes late, every increment counts on. -/
theorem Inv.count_eq (hs : Inv cfg s) (htime : s.now < (day + 1) * dayLength + grace) :
    s.count day = s.stored day := by
  unfold State.count State.stored
  cases hfind : s.counters.find day with
  | none => rfl
  | some counter =>
    have halive : counter.alive s.now = true := by
      unfold Counter.alive
      cases hexpires : counter.expiresAt with
      | none => rfl
      | some time =>
        have := hs.expiry day counter hfind time hexpires
        simp
        omega
    simp [halive]

theorem stored_incr (d : Int) :
    (s.incr day).stored d = if d = day then s.count day + 1 else s.stored d := by
  unfold State.stored State.incr
  simp only [Table.find_put]
  split <;> rfl

theorem expiry_incr (hs : Inv cfg s) {d : Int} {counter : Counter}
    (hfind : (s.incr day).counters.find d = some counter) {time : Int}
    (htime : time ∈ counter.expiresAt) : (d + 1) * dayLength + grace ≤ time := by
  unfold State.incr at hfind
  simp only [Table.find_put] at hfind
  split at hfind
  · rename_i hd
    obtain rfl := Option.some.inj hfind
    obtain ⟨old, hold, hexpires⟩ := Option.bind_eq_some_iff.mp htime
    split at hexpires
    · rw [hd]
      exact hs.expiry day old hold time hexpires
    · cases hexpires
  · exact hs.expiry d counter hfind time htime

theorem stored_expire (s : State) (day d : Int) : (s.expire day).stored d = s.stored d := by
  unfold State.expire
  split
  · rename_i counter hfind
    split
    · unfold State.stored
      simp only [Table.find_put, Table.key_of_find hfind]
      split
      · rename_i hd
        simp [hd, hfind]
      · rfl
    · rfl
  · rfl

theorem expiry_expire (hs : Inv cfg s) (hbegun : day * dayLength ≤ s.now) {d : Int}
    {counter : Counter} (hfind : (s.expire day).counters.find d = some counter) {time : Int}
    (htime : time ∈ counter.expiresAt) : (d + 1) * dayLength + grace ≤ time := by
  unfold State.expire at hfind
  split at hfind
  · rename_i old hold
    split at hfind
    · simp only [Table.find_put, Table.key_of_find hold] at hfind
      split at hfind
      · rename_i hd
        obtain rfl := Option.some.inj hfind
        cases htime
        unfold dayLength grace dayTtl at *
        rw [hd]
        omega
      · exact hs.expiry d counter hfind time htime
    · exact hs.expiry d counter hfind time htime
  · exact hs.expiry d counter hfind time htime

theorem takes_budgetPoint (budget : Bool) : (s.budgetPoint budget).takes cfg day = false := by
  cases budget <;> rfl

theorem today_le (now : Int) : today now * dayLength ≤ now :=
  Int.ediv_mul_le now (by decide)

theorem day?_budgetPoint {budget : Bool} (h : day ∈ (s.budgetPoint budget).day?) :
    day * dayLength ≤ s.now := by
  cases budget with
  | false => cases h
  | true =>
    cases h
    exact today_le s.now

/-- The counters are left as they are. -/
theorem Inv.goOn {call : Nat} {old new : Point} (hs : Inv cfg s)
    (hold : s.calls[call]? = some old) (hday : ∀ day ∈ new.day?, day * dayLength ≤ s.now)
    (htakes : ∀ day, new.takes cfg day = true → old.takes cfg day = true)
    (hcalls : t.calls = s.calls.set call new) (hnow : t.now = s.now)
    (hcounters : t.counters = s.counters) : Inv cfg t := by
  have hstored : ∀ day, s.stored day = t.stored day := by
    intro day
    simp [State.stored, hcounters]
  refine hs.set hold hcalls hnow hday ?_ (fun day => (hstored day).le)
    fun day hnew => Or.inl (htakes day hnew)
  rw [hcounters]
  exact hs.expiry

theorem Inv.incr {call : Nat} {new : Point} (hs : Inv cfg s)
    (hold : s.calls[call]? = some (.incrementing day))
    (htime : s.now < (day + 1) * dayLength + grace)
    (hnew : new = .degraded ∨ new = s.countedPoint cfg day) :
    Inv cfg ((s.incr day).setPoint call new) := by
  have hcount := hs.count_eq htime
  have hbegun := hs.begun _ (List.mem_of_getElem? hold) day rfl
  have htakes : ∀ d, new.takes cfg d = true →
      d = day ∧ ((s.count day + 1 : Nat) : Int) ≤ cfg.dailyBudget := by
    intro d hd
    rcases hnew with rfl | rfl
    · simp at hd
    · unfold State.countedPoint at hd
      split at hd
      · rename_i hfirst
        simp only [takes_expiring, Bool.and_eq_true, decide_eq_true_eq] at hd
        rw [hfirst]
        exact ⟨hd.1.symm, hd.2⟩
      · simp only [takes_decided, Bool.and_eq_true, decide_eq_true_eq] at hd
        exact ⟨hd.1.symm, hd.2⟩
  refine hs.set hold rfl rfl ?_ (fun d counter hfind time => expiry_incr hs hfind) ?_ ?_
  · intro d hd
    rcases hnew with rfl | rfl
    · simp at hd
    · unfold State.countedPoint at hd
      split at hd
      · obtain rfl := Option.some.inj hd
        exact hbegun
      · simp [day?_decided] at hd
  · intro d
    show s.stored d ≤ (s.incr day).stored d
    rw [stored_incr]
    split
    · rename_i hd
      rw [hd, hcount]
      omega
    · exact le_rfl
  · intro d hd
    obtain ⟨rfl, hbudget⟩ := htakes d hd
    refine Or.inr ?_
    show s.stored d < (s.incr d).stored d ∧ ((s.incr d).stored d : Int) ≤ _
    rw [stored_incr, if_pos rfl]
    exact ⟨by omega, hbudget⟩

theorem Inv.expire {call : Nat} {new : Point} (hs : Inv cfg s)
    (hold : s.calls[call]? = some (.expiring day))
    (hnew : new = .degraded ∨ new = State.decided cfg day 1) :
    Inv cfg ((s.expire day).setPoint call new) := by
  have hbegun := hs.begun _ (List.mem_of_getElem? hold) day rfl
  have hsame : (s.expire day).calls = s.calls ∧ (s.expire day).now = s.now := by
    unfold State.expire
    split
    · split <;> exact ⟨rfl, rfl⟩
    · exact ⟨rfl, rfl⟩
  refine hs.set hold (congrArg (·.set call new) hsame.1) hsame.2 ?_
    (fun d counter hfind time => expiry_expire hs hbegun hfind)
    (fun d => (stored_expire s day d).ge) fun d hd => Or.inl ?_
  · intro d hd
    rcases hnew with rfl | rfl
    · simp at hd
    · simp [day?_decided] at hd
  · rcases hnew with rfl | rfl
    · simp at hd
    · simpa [takes_decided] using hd

/-- The call does not count itself on any day, and goes on or is refused. -/
theorem Inv.leave {call : Nat} {old new : Point} (hs : Inv cfg s)
    (hold : s.calls[call]? = some old) (hday : new.day? = none)
    (htakes : ∀ day, new.takes cfg day = false)
    (hcalls : t.calls = s.calls.set call new) (hnow : t.now = s.now)
    (hcounters : t.counters = s.counters) : Inv cfg t := by
  refine hs.goOn hold ?_ ?_ hcalls hnow hcounters
  · intro day h
    simp [hday] at h
  · intro day h
    simp [htakes] at h

theorem setGate_eq (h : s.setGate cfg = some t) : ∃ px gate, cfg.px = some px ∧
    s.gate.setNx s.now px () () = some gate ∧
    t = { s with gate, acquired := s.now :: s.acquired } := by
  obtain ⟨px, hpx, hgate⟩ := Option.bind_eq_some_iff.mp h
  obtain ⟨gate, hset, hgate⟩ := Option.map_eq_some_iff.mp hgate
  exact ⟨px, gate, hpx, hset, hgate.symm⟩

/-- Nothing but the gate is set. -/
theorem setGate_rest (cfg : Config) (s : State) : ((s.setGate cfg).getD s).calls = s.calls ∧
    ((s.setGate cfg).getD s).now = s.now ∧ ((s.setGate cfg).getD s).counters = s.counters := by
  cases hgate : s.setGate cfg with
  | none => exact ⟨rfl, rfl, rfl⟩
  | some t =>
    obtain ⟨px, gate, -, -, rfl⟩ := setGate_eq hgate
    exact ⟨rfl, rfl, rfl⟩

theorem Inv.setGate {call : Nat} {old new : Point} (hs : Inv cfg s)
    (hold : s.calls[call]? = some old) (hday : new.day? = none)
    (htakes : ∀ day, new.takes cfg day = false) :
    Inv cfg (((s.setGate cfg).getD s).setPoint call new) := by
  obtain ⟨hcalls, hnow, hcounters⟩ := setGate_rest cfg s
  exact hs.leave hold hday htakes (congrArg (·.set call new) hcalls) hnow hcounters

theorem day?_gatePoint (budget : Bool) : (s.gatePoint cfg budget).day? = none := by
  unfold State.gatePoint
  split <;> rfl

theorem takes_gatePoint (budget : Bool) : (s.gatePoint cfg budget).takes cfg day = false := by
  unfold State.gatePoint
  split <;> rfl

theorem Inv.reply {call : Nat} {point : Point} {reply : Reply} (hs : Inv cfg s)
    (hold : s.calls[call]? = some point) (htime : reply ≠ .failed → point.onTime s.now = true)
    (h : s.reply cfg call point reply = some t) : Inv cfg t := by
  cases point with
  | setting budget =>
    cases reply with
    | answered =>
      cases h
      exact hs.setGate hold (day?_gatePoint budget) fun day => takes_gatePoint budget
    | lost =>
      cases h
      exact hs.setGate hold rfl fun day => rfl
    | failed =>
      cases h
      exact hs.leave hold rfl (fun day => rfl) rfl rfl rfl
  | granted budget =>
    cases reply with
    | answered =>
      cases h
      refine hs.goOn hold (fun day => day?_budgetPoint) (fun day hday => ?_) rfl rfl rfl
      rw [takes_budgetPoint] at hday
      cases hday
    | lost => cases h
    | failed => cases h
  | incrementing day =>
    have htime : reply ≠ .failed → s.now < (day + 1) * dayLength + grace := by
      simpa [Point.onTime] using htime
    cases reply with
    | answered =>
      cases h
      exact hs.incr hold (htime (by decide)) (Or.inr rfl)
    | lost =>
      cases h
      exact hs.incr hold (htime (by decide)) (Or.inl rfl)
    | failed =>
      cases h
      exact hs.leave hold rfl (fun day => rfl) rfl rfl rfl
  | expiring day =>
    cases reply with
    | answered =>
      cases h
      exact hs.expire hold (Or.inr rfl)
    | lost =>
      cases h
      exact hs.expire hold (Or.inl rfl)
    | failed =>
      cases h
      exact hs.leave hold rfl (fun day => rfl) rfl rfl rfl
  | passed day => cases reply <;> cases h
  | refused reason retryAfter => cases reply <;> cases h
  | degraded => cases reply <;> cases h

theorem Inv.tick (hs : Inv cfg s) (elapsed : Nat) :
    Inv cfg { s with now := s.now + elapsed } where
  expiry := hs.expiry
  begun point hmem day hday := by
    have := hs.begun point hmem day hday
    simp only
    omega
  counted := hs.counted
  within := hs.within

theorem Inv.runGates (hs : Inv cfg s) (interval budget redis : Bool) :
    Inv cfg (s.runGates cfg interval budget redis) := by
  have hpoint : ∃ point, s.runGates cfg interval budget redis =
      { s with calls := s.calls ++ [point] } ∧ (∀ day ∈ point.day?, day * dayLength ≤ s.now) ∧
      ∀ day, point.takes cfg day = false := by
    refine ⟨_, rfl, ?_⟩
    split
    · split
      · simp [Point.day?, Point.takes]
      · exact ⟨fun day => day?_budgetPoint, fun day => takes_budgetPoint budget⟩
    · simp [Point.day?]
  obtain ⟨point, heq, hday, htakes⟩ := hpoint
  have hcount : ∀ day, (s.calls ++ [point]).countP (Point.takes cfg day) =
      s.calls.countP (Point.takes cfg day) := by
    intro day
    simp [List.countP_append, htakes]
  rw [heq]
  refine ⟨hs.expiry, ?_, fun day => (hcount day).le.trans (hs.counted day), fun day => ?_⟩
  · intro other hmem day hother
    rcases List.mem_append.mp hmem with hmem | hmem
    · exact hs.begun other hmem day hother
    · obtain rfl := List.mem_singleton.mp hmem
      exact hday day hother
  · show ((s.calls ++ [point]).countP (Point.takes cfg day) : Int) ≤ _
    rw [hcount]
    exact hs.within day

theorem Inv.step {a : Action} (hs : Inv cfg s) (htime : OnTime s a)
    (h : (machine cfg).step s a = some t) : Inv cfg t := by
  cases a with
  | tick elapsed =>
    cases h
    exact hs.tick elapsed
  | call interval budget redis =>
    cases h
    exact hs.runGates interval budget redis
  | reply call reply =>
    obtain ⟨point, hpoint, hreply⟩ := Option.bind_eq_some_iff.mp h
    refine hs.reply hpoint ?_ hreply
    simpa [OnTime, State.onTime, hpoint, or_iff_not_imp_left] using htime

/-- An empty Redis, and no call. -/
def start (now : Int) : State := { now }

theorem Inv.start (cfg : Config) (now : Int) : Inv cfg (start now) := by
  refine ⟨?_, ?_, ?_, ?_⟩
  · intro day counter h
    cases h
  · intro point h
    cases h
  · intro day
    exact Nat.zero_le _
  · intro day
    exact le_max_right _ _

/-- Counted on the day and let through. -/
def Point.passedOn (day : Int) (point : Point) : Bool := point = .passed (some day)

theorem takes_of_passedOn {point : Point} (h : point.passedOn day = true) :
    point.takes cfg day = true := by
  unfold Point.passedOn at h
  obtain rfl := of_decide_eq_true h
  simp

/-- A day's budget is kept, whatever the number of processes and whatever Redis loses. -/
theorem calls_within_budget {now : Int} {as : List Action}
    (hrun : (machine cfg).run (start now) as = some s)
    (hm : (machine cfg).Meets OnTime (start now) as) (day : Int) :
    (s.calls.countP (Point.passedOn day) : Int) ≤ max cfg.dailyBudget 0 := by
  have hinv : Inv cfg s := (machine cfg).run_invariant_of_meets (I := Inv cfg)
    (fun s a t hs htime h => hs.step htime h) (Inv.start cfg now) hm hrun
  have hle := List.countP_mono_left (l := s.calls) (p := Point.passedOn day)
    (q := Point.takes cfg day) fun point _ => takes_of_passedOn
  have := hinv.within day
  omega

def oneADay : Config := ⟨some 5000, by decide, 1⟩

/-- Two calls are counted on one day, the second first, and one on the next day, whose time to
live is set without an answer. -/
def threeCalls : List Action :=
  [.call true true true, .call false true true, .reply 1 .answered, .reply 0 .answered,
    .reply 0 .answered, .reply 0 .answered, .reply 1 .answered, .tick 3600000,
    .call true true true, .reply 2 .answered, .reply 2 .answered, .reply 2 .answered,
    .reply 2 .lost]

def afterThreeCalls : State :=
  ((machine oneADay).run (start 86399000) threeCalls).get (by decide +kernel)

theorem budget_threeCalls :
    (afterThreeCalls.calls.countP (Point.passedOn 0) : Int) ≤ max oneADay.dailyBudget 0 :=
  calls_within_budget (Option.some_get _).symm (by decide +kernel) 0

/-- A call that counts itself after the counter of its day is gone is let through once more. -/
example : (((machine oneADay).run (start 0)
    [.call false true true, .call false true true, .reply 0 .answered, .reply 0 .answered,
      .tick 90000000, .reply 1 .answered, .reply 1 .answered]).map fun s =>
        s.calls.countP (Point.passedOn 0)) = some 2 := by decide +kernel

/-! ## The interval -/

/-- The key is there for the interval behind the last time it was set. -/
structure GateInv (px : Nat) (s : State) : Prop where
  expiry : s.gate.expiry () = s.acquired.head?.map (· + (px : Int))
  kept : s.acquired.Pairwise fun later earlier => earlier + (px : Int) ≤ later

theorem GateInv.setGate {px : Nat} (hpx : cfg.px = some px) (hs : GateInv px s)
    (h : s.setGate cfg = some t) : GateInv px t := by
  obtain ⟨px', gate, hpx', hset, rfl⟩ := setGate_eq h
  obtain rfl := Option.some.inj (hpx.symm.trans hpx')
  have hfree := (ExpiringKeys.setNx_eq_some_iff.mp hset).1
  constructor
  · rw [ExpiringKeys.expiry_setNx hset]
    simp
  · refine List.pairwise_cons.mpr ⟨fun earlier hmem => ?_, hs.kept⟩
    cases hacquired : s.acquired with
    | nil => simp [hacquired] at hmem
    | cons last rest =>
      have hexpiry : s.gate.expiry () = some (last + (px : Int)) := by
        rw [hs.expiry, hacquired]
        rfl
      -- the key that was set last has expired
      have hlast : last + (px : Int) ≤ s.now := by
        by_contra hlt
        rw [ExpiringKeys.alive_of_expiry hexpiry (by omega)] at hfree
        cases hfree
      have hkept := hs.kept
      rw [hacquired] at hmem hkept
      rcases List.mem_cons.mp hmem with rfl | hmem
      · exact hlast
      · have := List.rel_of_pairwise_cons hkept hmem
        omega

theorem GateInv.reply {px : Nat} (hpx : cfg.px = some px) {call : Nat} {point : Point}
    {reply : Reply} (hs : GateInv px s) (h : s.reply cfg call point reply = some t) :
    GateInv px t := by
  have hset : ∀ new, GateInv px (((s.setGate cfg).getD s).setPoint call new) := by
    intro new
    cases hgate : s.setGate cfg with
    | none => exact ⟨hs.expiry, hs.kept⟩
    | some u =>
      have hu := hs.setGate hpx hgate
      exact ⟨hu.expiry, hu.kept⟩
  have hincr : ∀ day new, GateInv px ((s.incr day).setPoint call new) :=
    fun day new => ⟨hs.expiry, hs.kept⟩
  have hexpire : ∀ day new, GateInv px ((s.expire day).setPoint call new) := by
    intro day new
    unfold State.expire
    split
    · split <;> exact ⟨hs.expiry, hs.kept⟩
    · exact ⟨hs.expiry, hs.kept⟩
  cases point with
  | setting budget =>
    cases reply with
    | answered =>
      cases h
      exact hset _
    | lost =>
      cases h
      exact hset _
    | failed =>
      cases h
      exact ⟨hs.expiry, hs.kept⟩
  | granted budget =>
    cases reply <;> cases h
    exact ⟨hs.expiry, hs.kept⟩
  | incrementing day =>
    cases reply with
    | answered =>
      cases h
      exact hincr day _
    | lost =>
      cases h
      exact hincr day _
    | failed =>
      cases h
      exact ⟨hs.expiry, hs.kept⟩
  | expiring day =>
    cases reply with
    | answered =>
      cases h
      exact hexpire day _
    | lost =>
      cases h
      exact hexpire day _
    | failed =>
      cases h
      exact ⟨hs.expiry, hs.kept⟩
  | passed day => cases reply <;> cases h
  | refused reason retryAfter => cases reply <;> cases h
  | degraded => cases reply <;> cases h

theorem GateInv.step {px : Nat} (hpx : cfg.px = some px) {a : Action} (hs : GateInv px s)
    (h : (machine cfg).step s a = some t) : GateInv px t := by
  cases a with
  | tick elapsed =>
    cases h
    exact ⟨hs.expiry, hs.kept⟩
  | call interval budget redis =>
    cases h
    exact ⟨hs.expiry, hs.kept⟩
  | reply call reply =>
    obtain ⟨point, -, hreply⟩ := Option.bind_eq_some_iff.mp h
    exact hs.reply hpx hreply

/-- The gate is set again only when the interval is over, in every run. -/
theorem intervals_kept {px : Nat} (hpx : cfg.px = some px) {now : Int} {as : List Action}
    (hrun : (machine cfg).run (start now) as = some s) :
    s.acquired.Pairwise fun later earlier => earlier + (px : Int) ≤ later :=
  ((machine cfg).run_invariant (I := GateInv px) (fun _ _ _ hs h => hs.step hpx h)
    ⟨rfl, List.Pairwise.nil⟩ hrun).kept

theorem intervals_threeCalls :
    afterThreeCalls.acquired.Pairwise fun later earlier => earlier + ((5000 : Nat) : Int) ≤ later :=
  intervals_kept (show oneADay.px = some 5000 from rfl) (Option.some_get _).symm

end NeuralHub.XBudget
