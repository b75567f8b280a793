/-
NeuralHub.XMonitor.Alerts — a post is alerted once.

`alerts_once`: whatever cycles of whatever processes come in between, with
answers lost, processes ended and monitors created, changed and deleted at
any point, no post is alerted twice for a monitor, every alert crosses a
threshold of a row the table of monitors had, and a hit that is marked as
notified was sent.
Nothing is said of a hit that is not marked: its alert may have failed, and
is not tried again.

`Inv` counts for every key the alerts and the cycles that are about to send
one. A key that counts belongs to an id that was given away, and as long as
the monitor is there its row in the table of hits is there. `Told` is about
what is sent and recorded, and `knows` about the monitors that the cycles
have in hand. `Answered` says once what an answer does, for all of them.
-/
import NeuralHub.Lib.Counts
import NeuralHub.XMonitor.Runner
import Mathlib.Data.List.Induction

namespace NeuralHub.XMonitor

open NeuralHub.Lib

variable {s t : State} {cycle : Nat} {old new : Point} {key : String × String}

/-- What a cycle is about to alert. -/
def Point.pending : Point → Option (String × String)
  | .notifying post search _ => some (search.monitor.id, post.url)
  | _ => none

/-- The monitors that a cycle has in hand. -/
def Point.monitors : Point → List Monitor
  | .sleeping => []
  | .listing => []
  | .searching monitor rest => monitor :: rest
  | .inserting _ search rest => search.monitor :: rest
  | .notifying _ search rest => search.monitor :: rest
  | .recording _ _ search rest => search.monitor :: rest
  | .marking monitor _ rest => monitor :: rest

def Point.isPending (key : String × String) (point : Point) : Bool := point.pending = some key

namespace State

/-- The monitors and posts of the messages that were sent. -/
def alertKeys (s : State) : List (String × String) :=
  s.alerts.map fun alert => (alert.1.id, alert.2.url)

/-- The alerts for a key, sent or about to be. -/
def held (s : State) (key : String × String) : Nat :=
  s.alertKeys.count key + s.cycles.countP (Point.isPending key)

/-- A monitor in hand, or one that something was sent for. -/
def Knows (s : State) (monitor : Monitor) : Prop :=
  (∃ alert ∈ s.alerts, alert.1 = monitor) ∨ ∃ point ∈ s.cycles, monitor ∈ point.monitors

end State

structure Inv (s : State) : Prop where
  once : ∀ key, s.held key ≤ 1
  given : ∀ id, (s.monitors.find id).isSome → id ∈ s.ids
  known : ∀ key, 0 < s.held key → key.1 ∈ s.ids ∧
    ((s.monitors.find key.1).isSome → (s.hits.find key).isSome)

/-- No key is held more often, and no row of a monitor that is there goes. -/
theorem Inv.of_le (hs : Inv s) (hheld : ∀ key, t.held key ≤ s.held key)
    (hids : ∀ id ∈ s.ids, id ∈ t.ids)
    (hmonitors : ∀ id ∈ s.ids, (t.monitors.find id).isSome → (s.monitors.find id).isSome)
    (hgiven : ∀ id, (t.monitors.find id).isSome → id ∈ t.ids)
    (hhits : ∀ key : String × String, (t.monitors.find key.1).isSome → (s.hits.find key).isSome →
      (t.hits.find key).isSome) : Inv t where
  once key := (hheld key).trans (hs.once key)
  given := hgiven
  known key hpos := by
    obtain ⟨hid, hrow⟩ := hs.known key (Nat.lt_of_lt_of_le hpos (hheld key))
    exact ⟨hids _ hid, fun hmonitor => hhits key hmonitor (hrow (hmonitors _ hid hmonitor))⟩

/-- Only the cycles change, and nothing is about to be sent in addition. -/
theorem Inv.of_cycles (hs : Inv s) (hheld : ∀ key, t.held key ≤ s.held key)
    (hids : t.ids = s.ids) (hmonitors : t.monitors = s.monitors) (hhits : t.hits = s.hits) :
    Inv t := by
  refine hs.of_le hheld ?_ ?_ ?_ ?_
  · intro id hid
    rwa [hids]
  · intro id hid h
    rwa [hmonitors] at h
  · intro id h
    rw [hmonitors] at h
    rw [hids]
    exact hs.given id h
  · intro key hmonitor h
    rwa [hhits]

theorem held_setPoint_le (hnew : new.pending = none) (key : String × String) :
    (s.setPoint cycle new).held key ≤ s.held key := by
  have hneg : new.isPending key = false := by simp [Point.isPending, hnew]
  exact Nat.add_le_add_left (countP_set_le hneg) _

/-- A cycle goes on, with nothing to send. -/
theorem Inv.setPoint (hs : Inv s) (hnew : new.pending = none) : Inv (s.setPoint cycle new) :=
  hs.of_cycles (held_setPoint_le hnew) rfl rfl rfl

/-- A message that was about to be sent is sent, or is not. -/
theorem Inv.send (hs : Inv s) {post : Post} {search : Search} {rest : List Monitor}
    (hold : s.cycles[cycle]? = some (.notifying post search rest)) (hnew : new.pending = none)
    (delivered : Bool) :
    Inv ((if delivered then { s with alerts := (search.monitor, post) :: s.alerts } else s).setPoint
      cycle new) := by
  cases delivered with
  | false => exact hs.setPoint hnew
  | true =>
    refine hs.of_cycles (fun key => ?_) rfl rfl rfl
    have hset := countP_set_add (p := Point.isPending key) hold new
    have hneg : new.isPending key = false := by simp [Point.isPending, hnew]
    have halert : (((search.monitor.id, post.url) :: s.alertKeys).count key) =
        s.alertKeys.count key +
          if (Point.notifying post search rest).isPending key then 1 else 0 := by
      simp [List.count_cons, Point.isPending, Point.pending]
    rw [hneg] at hset
    show ((search.monitor.id, post.url) :: s.alertKeys).count key +
      (s.cycles.set cycle new).countP (Point.isPending key) ≤ s.held key
    rw [halert]
    unfold State.held
    simp only [Bool.false_eq_true, if_false] at hset
    omega

/-! ## The table of hits -/

/-- A hit that was not there is about to be alerted by one cycle at most. -/
theorem Inv.insertHit (hs : Inv s) {hit : Hit} (hold : s.cycles[cycle]? = some old)
    (hmonitor : (s.monitors.find hit.monitorId).isSome)
    (hnew : ∀ key, new.pending = some key → key = hit.key ∧ s.hits.find hit.key = none) :
    Inv ((s.insertHit hit).setPoint cycle new) := by
  unfold State.insertHit
  split
  · rename_i hthere
    refine hs.setPoint (Option.eq_none_iff_forall_not_mem.mpr fun key hkey => ?_)
    rw [(hnew key hkey).2] at hthere
    cases hthere
  rename_i hnone
  have hfree : s.held hit.key = 0 := by
    by_contra hpos
    exact hnone ((hs.known hit.key (by omega)).2 hmonitor)
  have hheld : ∀ key, (State.setPoint { s with hits := s.hits.put hit } cycle new).held key ≤
      s.held key ∨ (key = hit.key ∧
        (State.setPoint { s with hits := s.hits.put hit } cycle new).held key ≤ 1) := by
    intro key
    cases hpending : new.isPending key with
    | false => exact Or.inl (Nat.add_le_add_left (countP_set_le hpending) _)
    | true =>
      have hkey := (hnew key (of_decide_eq_true hpending)).1
      subst hkey
      have hsucc := countP_set_le_succ (Point.isPending hit.key) hold new
      refine Or.inr ⟨rfl, ?_⟩
      show s.alertKeys.count hit.key + (s.cycles.set cycle new).countP _ ≤ 1
      unfold State.held at hfree
      omega
  have hrow : ∀ key : String × String, (s.hits.find key).isSome ∨ key = hit.key →
      ((s.hits.put hit).find key).isSome := by
    intro key hkey
    rw [Table.find_put]
    split
    · rfl
    · rename_i hne
      exact hkey.resolve_right hne
  constructor
  · intro key
    rcases hheld key with hle | ⟨-, hle⟩
    · exact hle.trans (hs.once key)
    · exact hle
  · exact hs.given
  · intro key hpos
    rcases hheld key with hle | ⟨rfl, -⟩
    · obtain ⟨hid, hknown⟩ := hs.known key (Nat.lt_of_lt_of_le hpos hle)
      exact ⟨hid, fun hmon => hrow key (Or.inl (hknown hmon))⟩
    · exact ⟨hs.given _ hmonitor, fun _ => hrow hit.key (Or.inr rfl)⟩

theorem isSome_setHitNotified {flag : Bool} (k : String × String) :
    ((s.setHitNotified key flag).hits.find k).isSome = (s.hits.find k).isSome := by
  unfold State.setHitNotified
  cases hfind : s.hits.find key with
  | none => rfl
  | some hit =>
    have hkey := Table.key_of_find hfind
    simp only [Table.find_put]
    split
    · rename_i hk
      have : k = key := hk.trans hkey
      simp [this, hfind]
    · rfl

theorem Inv.setHitNotified (hs : Inv s) (flag : Bool) : Inv (s.setHitNotified key flag) := by
  have hsame : (s.setHitNotified key flag).cycles = s.cycles ∧
      (s.setHitNotified key flag).alerts = s.alerts ∧ (s.setHitNotified key flag).ids = s.ids ∧
      (s.setHitNotified key flag).monitors = s.monitors := by
    unfold State.setHitNotified
    split <;> exact ⟨rfl, rfl, rfl, rfl⟩
  obtain ⟨hcycles, halerts, hids, hmonitors⟩ := hsame
  refine hs.of_le (fun k => ?_) ?_ ?_ ?_ ?_
  · simp [State.held, State.alertKeys, hcycles, halerts]
  · simp [hids]
  · simp [hmonitors]
  · rw [hids, hmonitors]
    exact hs.given
  · intro k _ h
    rwa [isSome_setHitNotified]

/-! ## The table of monitors -/

/-- A monitor's row is written again. -/
theorem Inv.putMonitor (hs : Inv s) {monitor : Monitor}
    (hrow : (s.monitors.find monitor.id).isSome)
    (ht : t = { s with monitors := s.monitors.put monitor }) : Inv t := by
  subst ht
  have hsame : ∀ id, ((s.monitors.put monitor).find id).isSome = (s.monitors.find id).isSome := by
    intro id
    rw [Table.find_put]
    split
    · rename_i hid
      rw [hid, hrow]
      rfl
    · rfl
  refine hs.of_le (fun key => Nat.le_refl _) (fun id h => h) ?_ ?_ (fun key _ h => h)
  · intro id _ h
    exact (hsame id).symm.trans h
  · intro id h
    exact hs.given id ((hsame id).symm.trans h)

theorem Inv.markRun (hs : Inv s) (id status : String) (now : Int) :
    Inv (s.markRun id status now) := by
  unfold State.markRun
  cases hfind : s.monitors.find id with
  | none => exact hs
  | some monitor =>
    refine hs.putMonitor ?_ rfl
    rw [Table.key_of_find hfind, hfind]
    rfl

theorem Inv.deleteMonitor (hs : Inv s) (id : String) : Inv (s.deleteMonitor id) := by
  have hgone : ∀ k, ((s.monitors.erase id).find k).isSome →
      k ≠ id ∧ (s.monitors.find k).isSome := by
    intro k h
    rw [Table.find_erase] at h
    split at h
    · cases h
    · rename_i hne
      exact ⟨hne, h⟩
  refine hs.of_le (fun key => Nat.le_refl _) (fun k h => h) (fun k _ h => (hgone k h).2)
    (fun k h => hs.given k (hgone k h).2) fun key hmonitor h => ?_
  obtain ⟨hit, hfind⟩ := Option.isSome_iff_exists.mp h
  have hkey : hit.monitorId = key.1 := congrArg Prod.fst (Table.key_of_find hfind)
  refine Option.isSome_iff_exists.mpr ⟨hit, Table.find_keep_eq_some_iff.mpr ⟨hfind, ?_⟩⟩
  simpa [hkey] using (hgone _ hmonitor).1

/-- A new monitor has an id that no alert is for. -/
theorem Inv.create (hs : Inv s) {monitor : Monitor} (hnew : monitor.id ∉ s.ids) :
    Inv { s with monitors := s.monitors.put monitor, ids := monitor.id :: s.ids } := by
  refine hs.of_le (fun key => Nat.le_refl _) (fun id h => List.mem_cons_of_mem _ h) ?_ ?_
    (fun key _ h => h)
  · intro id hid h
    have hne : id ≠ monitor.id := fun heq => hnew (heq ▸ hid)
    rwa [Table.find_put_of_ne _ hne] at h
  · intro id h
    by_cases hid : id = monitor.id
    · exact hid ▸ List.mem_cons_self
    · rw [Table.find_put_of_ne _ hid] at h
      exact List.mem_cons_of_mem _ (hs.given id h)

/-! ## An answer -/

@[simp] theorem pending_nextMonitor (monitors : List Monitor) :
    (nextMonitor monitors).pending = none := by
  cases monitors <;> rfl

@[simp] theorem pending_nextPost (search : Search) (rest : List Monitor) (posts : List Post) :
    (nextPost search rest posts).pending = none := by
  induction posts with
  | nil => rfl
  | cons post posts ih =>
    unfold nextPost
    split
    · exact ih
    · rfl

@[simp] theorem pending_nextInSearch (search : Search) (rest : List Monitor) :
    (nextInSearch search rest).pending = none := pending_nextPost search rest search.posts

theorem pending_insertedPoint {post : Post} {search : Search} {rest : List Monitor}
    (h : (s.insertedPoint post search rest).pending = some key) :
    key = (newHit search.monitor post).key ∧
      s.hits.find (newHit search.monitor post).key = none := by
  unfold State.insertedPoint at h
  split at h
  · simp at h
  · rename_i hnone
    exact ⟨(Option.some.inj h).symm, by simpa using hnone⟩

/-- A post that is inserted or alerted crosses a threshold, and what is recorded as sent was. -/
def Point.Ok (alerted : List (String × String)) : Point → Prop
  | .inserting post search _ => crossingReason search.monitor post ≠ ""
  | .notifying post search _ => crossingReason search.monitor post ≠ ""
  | .recording key sent _ _ => sent = true → key ∈ alerted
  | _ => True

theorem ok_nextMonitor (alerted : List (String × String)) (monitors : List Monitor) :
    (nextMonitor monitors).Ok alerted := by
  cases monitors <;> trivial

theorem ok_nextPost (alerted : List (String × String)) (search : Search) (rest : List Monitor)
    (posts : List Post) : (nextPost search rest posts).Ok alerted := by
  induction posts with
  | nil => trivial
  | cons post posts ih =>
    unfold nextPost
    split
    · exact ih
    · rename_i hcross
      exact hcross

theorem ok_insertedPoint {post : Post} {search : Search}
    (h : crossingReason search.monitor post ≠ "") (rest : List Monitor)
    (alerted : List (String × String)) : (s.insertedPoint post search rest).Ok alerted := by
  unfold State.insertedPoint
  split
  · exact ok_nextPost alerted search rest search.posts
  · exact h

/-- The monitors in hand are kept, or are read from the table. -/
def Follows (s : State) (old new : Point) : Prop :=
  ∀ monitor ∈ new.monitors, monitor ∈ old.monitors ∨ s.monitors.find monitor.id = some monitor

theorem Follows.of_subset (h : ∀ monitor ∈ new.monitors, monitor ∈ old.monitors) :
    Follows s old new := fun monitor hmem => Or.inl (h monitor hmem)

theorem monitors_nextMonitor (monitors : List Monitor) :
    (nextMonitor monitors).monitors = monitors := by
  cases monitors <;> rfl

theorem monitors_nextPost (search : Search) (rest : List Monitor) (posts : List Post) :
    (nextPost search rest posts).monitors = search.monitor :: rest := by
  induction posts with
  | nil => rfl
  | cons post posts ih =>
    unfold nextPost
    split
    · exact ih
    · rfl

theorem monitors_insertedPoint (post : Post) (search : Search) (rest : List Monitor) :
    (s.insertedPoint post search rest).monitors = search.monitor :: rest := by
  unfold State.insertedPoint
  split
  · exact monitors_nextPost search rest search.posts
  · rfl

theorem follows_listing (p : Monitor → Bool) :
    Follows s .listing (nextMonitor (s.monitors.entries.filter p)) := by
  intro monitor hmem
  rw [monitors_nextMonitor] at hmem
  exact Or.inr (Table.find_of_mem (List.mem_filter.mp hmem).1)

/-- The monitors behind the current one are left. -/
theorem follows_nextMonitor {monitor : Monitor} {rest : List Monitor}
    (hold : old.monitors = monitor :: rest) : Follows s old (nextMonitor rest) := by
  refine .of_subset fun other hmem => ?_
  rw [monitors_nextMonitor] at hmem
  rw [hold]
  exact List.mem_cons_of_mem _ hmem

/-- The current monitor goes on. -/
theorem follows_same (hsame : new.monitors = old.monitors) : Follows s old new :=
  .of_subset fun _ hmem => hsame ▸ hmem

/-- What an answer does. Where a cycle goes on is part of it only as far as it is about to send or
to record something. -/
inductive Answered (s : State) (cycle : Nat) : Point → State → Prop
  | plain (point new : Point) (hpending : new.pending = none)
      (hok : ∀ alerted, new.Ok alerted) (hfollows : Follows s point new) :
      Answered s cycle point (s.setPoint cycle new)
  | inserted (post : Post) (search : Search) (rest : List Monitor) (new : Point)
      (hmonitor : (s.monitors.find search.monitor.id).isSome)
      (hpending : ∀ key, new.pending = some key → key = (newHit search.monitor post).key ∧
        s.hits.find (newHit search.monitor post).key = none)
      (hok : crossingReason search.monitor post ≠ "" → ∀ alerted, new.Ok alerted)
      (hfollows : Follows s (.inserting post search rest) new) :
      Answered s cycle (.inserting post search rest)
        ((s.insertHit (newHit search.monitor post)).setPoint cycle new)
  | sent (post : Post) (search : Search) (rest : List Monitor) (delivered : Bool) (new : Point)
      (hpending : new.pending = none)
      (hok : ∀ alerted, (delivered = true → (search.monitor.id, post.url) ∈ alerted) →
        new.Ok alerted)
      (hfollows : Follows s (.notifying post search rest) new) :
      Answered s cycle (.notifying post search rest)
        ((if delivered then { s with alerts := (search.monitor, post) :: s.alerts }
          else s).setPoint cycle new)
  | recorded (key : String × String) (sent : Bool) (search : Search) (rest : List Monitor)
      (new : Point) (hpending : new.pending = none) (hok : ∀ alerted, new.Ok alerted)
      (hfollows : Follows s (.recording key sent search rest) new) :
      Answered s cycle (.recording key sent search rest)
        ((s.setHitNotified key sent).setPoint cycle new)
  | marked (monitor : Monitor) (status : String) (rest : List Monitor) (now : Int) (new : Point)
      (hpending : new.pending = none) (hok : ∀ alerted, new.Ok alerted)
      (hfollows : Follows s (.marking monitor status rest) new) :
      Answered s cycle (.marking monitor status rest)
        ((s.markRun monitor.id status now).setPoint cycle new)

theorem Answered.of_answerInsert {post : Post} {search : Search} {rest : List Monitor}
    {committed : Bool}
    (hpending : ∀ key, new.pending = some key → key = (newHit search.monitor post).key ∧
      s.hits.find (newHit search.monitor post).key = none)
    (hok : crossingReason search.monitor post ≠ "" → ∀ alerted, new.Ok alerted)
    (hmonitors : new.monitors = search.monitor :: rest)
    (hlost : committed = false → new = .marking search.monitor "error" rest)
    (h : s.answerInsert cycle post search committed new = some t) :
    Answered s cycle (.inserting post search rest) t := by
  unfold State.answerInsert at h
  split at h
  · split at h
    · rename_i hmonitor
      cases h
      exact .inserted post search rest new hmonitor hpending hok (follows_same hmonitors)
    · cases h
  · rename_i hnot
    cases h
    rw [hlost (Bool.eq_false_of_not_eq_true hnot)]
    exact .plain _ _ rfl (fun _ => trivial) (follows_same rfl)

theorem Answered.of_answer {point : Point} {now : Int} {answer : Answer}
    (h : s.answer cycle now point answer = some t) : Answered s cycle point t := by
  cases point with
  | sleeping => cases answer <;> cases h
  | listing =>
    cases answer <;> cases h
    · exact .plain _ _ (pending_nextMonitor _) (fun alerted => ok_nextMonitor alerted _)
        (follows_listing _)
    · exact .plain _ _ rfl (fun _ => trivial) (.of_subset fun _ hmem => nomatch hmem)
  | searching monitor rest =>
    cases answer <;> cases h
    · exact .plain _ _ rfl (fun _ => trivial) (follows_same rfl)
    · exact .plain _ _ (pending_nextInSearch _ _) (fun alerted => ok_nextPost alerted _ _ _)
        (follows_same (monitors_nextPost _ _ _))
    · exact .plain _ _ rfl (fun _ => trivial) (follows_same rfl)
  | inserting post search rest =>
    cases answer with
    | done =>
      refine .of_answerInsert (fun key hkey => pending_insertedPoint hkey) ?_
        (monitors_insertedPoint post search rest) ?_ h
      · exact fun hcross alerted => ok_insertedPoint hcross rest alerted
      · intro hfalse
        cases hfalse
    | raised committed =>
      refine .of_answerInsert (fun key hkey => ?_) (fun _ alerted => ?_) rfl (fun _ => rfl) h
      · cases hkey
      · trivial
    | _ => cases h
  | notifying post search rest =>
    cases answer with
    | notified sent delivered =>
      unfold State.answer at h
      simp only at h
      split at h
      · cases h
      · rename_i hsent
        cases h
        refine .sent post search rest delivered _ rfl
          (fun alerted halerted htrue => halerted ?_) (follows_same rfl)
        cases delivered with
        | true => rfl
        | false => simp [htrue] at hsent
    | raised delivered =>
      cases h
      exact .sent post search rest delivered _ rfl (fun _ _ => trivial) (follows_same rfl)
    | _ => cases h
  | recording key sent search rest =>
    cases answer with
    | done =>
      cases h
      exact .recorded key sent search rest _ (pending_nextInSearch _ _)
        (fun alerted => ok_nextPost alerted _ _ _) (follows_same (monitors_nextPost _ _ _))
    | raised committed =>
      cases h
      cases committed with
      | true => exact .recorded key sent search rest _ rfl (fun _ => trivial) (follows_same rfl)
      | false => exact .plain _ _ rfl (fun _ => trivial) (follows_same rfl)
    | _ => cases h
  | marking monitor status rest =>
    cases answer with
    | done =>
      cases h
      exact .marked monitor status rest now _ (pending_nextMonitor _)
        (fun alerted => ok_nextMonitor alerted _) (follows_nextMonitor rfl)
    | raised committed =>
      cases h
      cases committed with
      | true =>
        exact .marked monitor status rest now _ (pending_nextMonitor _)
          (fun alerted => ok_nextMonitor alerted _) (follows_nextMonitor rfl)
      | false =>
        exact .plain _ _ (pending_nextMonitor _) (fun alerted => ok_nextMonitor alerted _)
          (follows_nextMonitor rfl)
    | _ => cases h

/-! ## A step -/

theorem Inv.answered {point : Point} (hs : Inv s) (hold : s.cycles[cycle]? = some point)
    (h : Answered s cycle point t) : Inv t := by
  cases h with
  | plain _ _ hpending => exact hs.setPoint hpending
  | inserted _ _ _ _ hmonitor hpending => exact hs.insertHit hold hmonitor hpending
  | sent _ _ _ delivered _ hpending => exact hs.send hold hpending delivered
  | recorded _ sent _ _ _ hpending => exact (hs.setHitNotified sent).setPoint hpending
  | marked monitor status _ now _ hpending =>
    exact (hs.markRun monitor.id status now).setPoint hpending

theorem Inv.step {a : Action} (hs : Inv s) (h : machine.step s a = some t) : Inv t := by
  cases a with
  | start =>
    cases h
    refine hs.of_cycles (fun key => ?_) rfl rfl rfl
    simp [State.held, State.alertKeys, Point.isPending, Point.pending]
  | tick cycle =>
    obtain ⟨point, -, hpoint⟩ := Option.bind_eq_some_iff.mp h
    cases point <;> cases hpoint
    exact hs.setPoint rfl
  | stop cycle =>
    cases h
    exact hs.setPoint rfl
  | answer cycle now answer =>
    obtain ⟨point, hpoint, hanswer⟩ := Option.bind_eq_some_iff.mp h
    exact hs.answered hpoint (.of_answer hanswer)
  | create monitor =>
    simp only [machine] at h
    split at h
    · cases h
    · rename_i hnew
      cases h
      exact hs.create hnew
  | update monitor =>
    obtain ⟨row, hrow, rfl⟩ := Option.map_eq_some_iff.mp h
    refine hs.putMonitor ?_ rfl
    show (s.monitors.find row.id).isSome
    rw [Table.key_of_find hrow, hrow]
    rfl
  | delete id =>
    cases h
    exact hs.deleteMonitor id

/-! ## What is sent -/

structure Told (s : State) : Prop where
  crosses : ∀ alert ∈ s.alerts, crossingReason alert.1 alert.2 ≠ ""
  points : ∀ point ∈ s.cycles, point.Ok s.alertKeys
  marked : ∀ key hit, s.hits.find key = some hit → hit.notified = true → key ∈ s.alertKeys

theorem Point.Ok.mono {point : Point} {alerted alerted' : List (String × String)}
    (h : point.Ok alerted) (hsub : ∀ key ∈ alerted, key ∈ alerted') : point.Ok alerted' := by
  cases point with
  | recording key sent search rest => exact fun hsent => hsub key (h hsent)
  | _ => exact h

theorem Told.goOn (hs : Told s) (hnew : new.Ok s.alertKeys) (halerts : t.alerts = s.alerts)
    (hcycles : t.cycles = s.cycles.set cycle new)
    (hmarked : ∀ key hit, t.hits.find key = some hit → hit.notified = true → key ∈ s.alertKeys) :
    Told t := by
  have hkeys : t.alertKeys = s.alertKeys := congrArg (List.map _) halerts
  constructor
  · rw [halerts]
    exact hs.crosses
  · intro point hmem
    rw [hkeys]
    rw [hcycles] at hmem
    rcases List.mem_or_eq_of_mem_set hmem with hmem | rfl
    · exact hs.points point hmem
    · exact hnew
  · rw [hkeys]
    exact hmarked

theorem Told.setPoint (hs : Told s) (hnew : new.Ok s.alertKeys) : Told (s.setPoint cycle new) :=
  hs.goOn hnew rfl rfl hs.marked

theorem marked_insertHit (hs : Told s) {hit : Hit} (hfresh : hit.notified = false) :
    ∀ key row, (s.insertHit hit).hits.find key = some row → row.notified = true →
      key ∈ s.alertKeys := by
  intro key row hrow hnotified
  unfold State.insertHit at hrow
  split at hrow
  · exact hs.marked key row hrow hnotified
  · simp only [Table.find_put] at hrow
    split at hrow
    · obtain rfl := Option.some.inj hrow
      rw [hfresh] at hnotified
      cases hnotified
    · exact hs.marked key row hrow hnotified

theorem Told.insertHit (hs : Told s) {hit : Hit} (hfresh : hit.notified = false)
    (hnew : new.Ok s.alertKeys) : Told ((s.insertHit hit).setPoint cycle new) := by
  have hsame : (s.insertHit hit).alerts = s.alerts ∧ (s.insertHit hit).cycles = s.cycles := by
    unfold State.insertHit
    split <;> exact ⟨rfl, rfl⟩
  exact hs.goOn hnew hsame.1 (congrArg (·.set cycle new) hsame.2) (marked_insertHit hs hfresh)

theorem Told.setHitNotified (hs : Told s) {flag : Bool} (hflag : flag = true → key ∈ s.alertKeys)
    (hnew : new.Ok s.alertKeys) : Told ((s.setHitNotified key flag).setPoint cycle new) := by
  unfold State.setHitNotified
  cases hfind : s.hits.find key with
  | none => exact hs.setPoint hnew
  | some hit =>
    refine hs.goOn hnew rfl rfl fun k row hrow hnotified => ?_
    simp only [State.setPoint, Table.find_put] at hrow
    split at hrow
    · rename_i hk
      obtain rfl := Option.some.inj hrow
      have hkey : k = hit.key := hk
      rw [hkey, Table.key_of_find hfind]
      exact hflag hnotified
    · exact hs.marked k row hrow hnotified

/-- A post over a threshold is sent. -/
theorem Told.send (hs : Told s) {post : Post} {search : Search}
    (hcross : crossingReason search.monitor post ≠ "") (delivered : Bool)
    (hnew : new.Ok ((if delivered then [(search.monitor.id, post.url)] else []) ++ s.alertKeys)) :
    Told ((if delivered then { s with alerts := (search.monitor, post) :: s.alerts }
      else s).setPoint cycle new) := by
  cases delivered with
  | false => exact hs.setPoint hnew
  | true =>
    have hsub : ∀ key ∈ s.alertKeys, key ∈ (search.monitor.id, post.url) :: s.alertKeys :=
      fun key hmem => List.mem_cons_of_mem _ hmem
    constructor
    · intro alert hmem
      rcases List.mem_cons.mp hmem with rfl | hmem
      · exact hcross
      · exact hs.crosses alert hmem
    · intro point hmem
      rcases List.mem_or_eq_of_mem_set hmem with hmem | rfl
      · exact (hs.points point hmem).mono hsub
      · exact hnew
    · intro key hit hfind hnotified
      exact hsub key (hs.marked key hit hfind hnotified)

theorem markRun_rest (id status : String) (now : Int) :
    (s.markRun id status now).alerts = s.alerts ∧ (s.markRun id status now).cycles = s.cycles ∧
      (s.markRun id status now).hits = s.hits := by
  unfold State.markRun
  split <;> exact ⟨rfl, rfl, rfl⟩

theorem Told.markRun (hs : Told s) (id status : String) (now : Int) (hnew : new.Ok s.alertKeys) :
    Told ((s.markRun id status now).setPoint cycle new) := by
  obtain ⟨halerts, hcycles, hhits⟩ := markRun_rest (s := s) id status now
  refine hs.goOn hnew halerts (congrArg (·.set cycle new) hcycles) ?_
  show ∀ key hit, (s.markRun id status now).hits.find key = some hit → _
  rw [hhits]
  exact hs.marked

theorem Told.answered {point : Point} (hs : Told s) (hold : s.cycles[cycle]? = some point)
    (h : Answered s cycle point t) : Told t := by
  have hpoint := hs.points point (List.mem_of_getElem? hold)
  cases h with
  | plain _ _ _ hok _ => exact hs.setPoint (hok _)
  | inserted _ _ _ _ _ _ hok _ =>
    exact hs.insertHit rfl (hok hpoint _)
  | sent _ _ _ delivered _ _ hok _ =>
    refine hs.send hpoint delivered (hok _ fun hdelivered => ?_)
    rw [if_pos hdelivered]
    exact List.mem_cons_self
  | recorded _ _ _ _ _ _ hok _ => exact hs.setHitNotified hpoint (hok _)
  | marked monitor status _ now _ _ hok _ =>
    exact hs.markRun monitor.id status now (hok _)

theorem Told.step {a : Action} (hs : Told s) (h : machine.step s a = some t) : Told t := by
  cases a with
  | start =>
    cases h
    refine ⟨hs.crosses, fun point hmem => ?_, hs.marked⟩
    rcases List.mem_append.mp hmem with hmem | hmem
    · exact hs.points point hmem
    · rw [List.mem_singleton.mp hmem]
      trivial
  | tick cycle =>
    obtain ⟨point, -, hpoint⟩ := Option.bind_eq_some_iff.mp h
    cases point <;> cases hpoint
    exact hs.setPoint trivial
  | stop cycle =>
    cases h
    exact hs.setPoint trivial
  | answer cycle now answer =>
    obtain ⟨point, hpoint, hanswer⟩ := Option.bind_eq_some_iff.mp h
    exact hs.answered hpoint (.of_answer hanswer)
  | create monitor =>
    simp only [machine] at h
    split at h
    · cases h
    · cases h
      exact ⟨hs.crosses, hs.points, hs.marked⟩
  | update monitor =>
    obtain ⟨row, -, rfl⟩ := Option.map_eq_some_iff.mp h
    exact ⟨hs.crosses, hs.points, hs.marked⟩
  | delete id =>
    cases h
    refine ⟨hs.crosses, hs.points, fun key hit hfind hnotified => ?_⟩
    exact hs.marked key hit (Table.find_keep_eq_some_iff.mp hfind).1 hnotified

/-! ## The monitors in hand -/

theorem knows_setPoint {monitor : Monitor} (hcycle : s.cycles[cycle]? = some old)
    (hfollows : Follows s old new) (h : (s.setPoint cycle new).Knows monitor) :
    s.Knows monitor ∨ s.monitors.find monitor.id = some monitor := by
  rcases h with hsent | ⟨point, hpoint, hmem⟩
  · exact Or.inl (Or.inl hsent)
  · rcases List.mem_or_eq_of_mem_set hpoint with hthere | rfl
    · exact Or.inl (Or.inr ⟨point, hthere, hmem⟩)
    · refine (hfollows monitor hmem).imp_left fun hkept => ?_
      exact Or.inr ⟨old, List.mem_of_getElem? hcycle, hkept⟩

theorem knows_congr {monitor : Monitor} (halerts : t.alerts = s.alerts)
    (hcycles : t.cycles = s.cycles) (h : t.Knows monitor) : s.Knows monitor := by
  unfold State.Knows at h ⊢
  rwa [halerts, hcycles] at h

/-- What an answer makes known is in hand already, or is read from the table. -/
theorem knows_answered {point : Point} {monitor : Monitor}
    (hcycle : s.cycles[cycle]? = some point) (h : Answered s cycle point t)
    (hknows : t.Knows monitor) :
    s.Knows monitor ∨ s.monitors.find monitor.id = some monitor := by
  cases h with
  | plain _ new _ _ hfollows => exact knows_setPoint hcycle hfollows hknows
  | inserted post search rest new _ _ _ hfollows =>
    refine knows_setPoint hcycle hfollows (knows_congr ?_ ?_ hknows) <;>
      simp only [State.setPoint, State.insertHit] <;> split <;> rfl
  | sent post search rest delivered new _ _ hfollows =>
    cases delivered with
    | false => exact knows_setPoint hcycle hfollows hknows
    | true =>
      rcases hknows with ⟨alert, hmem, rfl⟩ | hpoint
      · rcases List.mem_cons.mp hmem with rfl | hmem
        · exact Or.inl (Or.inr ⟨_, List.mem_of_getElem? hcycle, List.mem_cons_self⟩)
        · exact Or.inl (Or.inl ⟨alert, hmem, rfl⟩)
      · exact knows_setPoint hcycle hfollows (Or.inr hpoint)
  | recorded key sent search rest new _ _ hfollows =>
    refine knows_setPoint hcycle hfollows (knows_congr ?_ ?_ hknows) <;>
      simp only [State.setPoint, State.setHitNotified] <;> split <;> rfl
  | marked running status rest now new _ _ hfollows =>
    obtain ⟨halerts, hcycles, -⟩ := markRun_rest (s := s) running.id status now
    have hthere : (s.setPoint cycle new).Knows monitor :=
      knows_congr (t := (s.markRun running.id status now).setPoint cycle new) halerts
        (congrArg (·.set cycle new) hcycles) hknows
    exact knows_setPoint hcycle hfollows hthere

theorem knows_step {a : Action} {monitor : Monitor} (h : machine.step s a = some t)
    (hknows : t.Knows monitor) :
    s.Knows monitor ∨ s.monitors.find monitor.id = some monitor := by
  cases a with
  | start =>
    cases h
    rcases hknows with hsent | ⟨point, hpoint, hmem⟩
    · exact Or.inl (Or.inl hsent)
    · rcases List.mem_append.mp hpoint with hthere | hnew
      · exact Or.inl (Or.inr ⟨point, hthere, hmem⟩)
      · rw [List.mem_singleton.mp hnew] at hmem
        cases hmem
  | tick cycle =>
    obtain ⟨point, hcycle, hpoint⟩ := Option.bind_eq_some_iff.mp h
    cases point <;> cases hpoint
    have hfollows : Follows s .sleeping .listing := follows_same rfl
    exact knows_setPoint hcycle hfollows hknows
  | stop cycle =>
    cases h
    rcases hknows with hsent | ⟨point, hpoint, hmem⟩
    · exact Or.inl (Or.inl hsent)
    · rcases List.mem_or_eq_of_mem_set hpoint with hthere | rfl
      · exact Or.inl (Or.inr ⟨point, hthere, hmem⟩)
      · cases hmem
  | answer cycle now answer =>
    obtain ⟨point, hcycle, hanswer⟩ := Option.bind_eq_some_iff.mp h
    exact knows_answered hcycle (.of_answer hanswer) hknows
  | create new =>
    simp only [machine] at h
    split at h
    · cases h
    · cases h
      exact Or.inl hknows
  | update fields =>
    obtain ⟨row, -, rfl⟩ := Option.map_eq_some_iff.mp h
    exact Or.inl hknows
  | delete id =>
    cases h
    exact Or.inl hknows

/-- The monitor was a row of the table at some time of the run. -/
def WasRow (as : List Action) (monitor : Monitor) : Prop :=
  ∃ before u, before <+: as ∧ machine.run start before = some u ∧
    u.monitors.find monitor.id = some monitor

theorem wasRow_of_knows {monitor : Monitor} {as : List Action} :
    ∀ {s : State}, machine.run start as = some s → s.Knows monitor → WasRow as monitor := by
  induction as using List.reverseRecOn with
  | nil =>
    intro s hrun hknows
    cases hrun
    rcases hknows with ⟨_, hmem, _⟩ | ⟨_, hmem, _⟩ <;> cases hmem
  | append_singleton as a ih =>
    intro s hrun hknows
    obtain ⟨u, hu, hstep⟩ := machine.run_snoc_eq_some.mp hrun
    rcases knows_step hstep hknows with hearlier | hrow
    · obtain ⟨before, v, hprefix, hv, hrow⟩ := ih hu hearlier
      exact ⟨before, v, hprefix.trans (List.prefix_append as [a]), hv, hrow⟩
    · exact ⟨as, u, List.prefix_append as [a], hu, hrow⟩

/-! ## Runs -/

theorem inv_start : Inv start := by
  refine ⟨fun key => Nat.zero_le _, fun id h => ?_, fun key h => ?_⟩
  · cases h
  · cases h

theorem told_start : Told start := by
  refine ⟨fun alert h => ?_, fun point h => ?_, fun key hit h => ?_⟩
  · cases h
  · cases h
  · cases h

/-- **One alert.** In every run a post is alerted at most once for a monitor, only over a
threshold of a row the table had, and a hit that is marked as notified was alerted. -/
theorem alerts_once {as : List Action} (hrun : machine.run start as = some s) :
    s.alertKeys.Nodup ∧
      (∀ alert ∈ s.alerts, WasRow as alert.1 ∧ crossingReason alert.1 alert.2 ≠ "") ∧
      ∀ hit ∈ s.hits.entries, hit.notified = true → hit.key ∈ s.alertKeys := by
  have hinv : Inv s := machine.run_invariant (fun _ _ _ hs h => hs.step h) inv_start hrun
  have htold : Told s := machine.run_invariant (fun _ _ _ hs h => hs.step h) told_start hrun
  refine ⟨List.nodup_iff_count_le_one.mpr fun key => ?_, fun alert hmem => ?_,
    fun hit hmem => ?_⟩
  · exact (Nat.le_add_right _ _).trans (hinv.once key)
  · have hknows : s.Knows alert.1 := Or.inl ⟨alert, hmem, rfl⟩
    exact ⟨wasRow_of_knows hrun hknows, htold.crosses alert hmem⟩
  · exact htold.marked hit.key hit (Table.find_of_mem hmem)

/-- Two processes find one post at the same time; one of them alerts it, and ends before that is
noted. -/
def twoProcesses : List Action :=
  let monitor : Monitor := { id := "m", query := "q", intervalMinutes := 30, thresholdLikes := 100 }
  let post : Post := { url := "u", likes := 120, views := 0 }
  [.create monitor, .start, .start, .tick 0, .tick 1, .answer 0 0 .done, .answer 1 0 .done,
    .answer 0 0 (.found [post] false), .answer 1 0 (.found [post, post] false), .answer 1 0 .done,
    .answer 0 0 .done, .answer 0 1 .done, .answer 1 1 (.notified true true), .stop 1]

def afterTwoProcesses : State := (machine.run start twoProcesses).get (by decide +kernel)

theorem alerts_twoProcesses :
    afterTwoProcesses.alertKeys.Nodup ∧
      (∀ alert ∈ afterTwoProcesses.alerts,
        WasRow twoProcesses alert.1 ∧ crossingReason alert.1 alert.2 ≠ "") ∧
      ∀ hit ∈ afterTwoProcesses.hits.entries, hit.notified = true →
        hit.key ∈ afterTwoProcesses.alertKeys :=
  alerts_once (Option.some_get _).symm

end NeuralHub.XMonitor
