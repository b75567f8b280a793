/-
NeuralHub.Lib.Machine — partial machines and the induction rules for
their runs.

A machine is a step function `σ → α → Option σ`; `none` means that the
action is not enabled in that state. Every protocol of this tree (the
task queue with its interleaved transactions, the agent loop with its
awaits, the plan executor) is one of these, so "for every interleaving"
is "for every list of actions", and an invariant is proved once per step
and lifted here.

Two shapes of statement occur over and over and have a definition each:

* `Meets C s as` — every action of `as`, in the state it is taken in,
  satisfies the condition `C`. It is decidable when `C` is, so a
  concrete run can be checked by evaluation.
* `run s as = some t` — the actions are enabled one after the other and
  lead to `t`.

`run_invariant_of_meets` is the rule the conditional results use: an
invariant that is preserved by the steps that meet `C` holds at the end
of every run whose steps all meet `C`. `withHistory` adds a history
variable, for properties that speak about what happened earlier in the run.
-/
import Mathlib.Data.Option.Basic

namespace NeuralHub.Lib

universe u v

/-- A deterministic machine whose actions may be disabled. -/
structure Machine (σ : Type u) (α : Type v) where
  step : σ → α → Option σ

namespace Machine

variable {σ : Type u} {α : Type v} (M : Machine σ α)

/-- Take the actions one after the other; `none` at the first disabled one. -/
def run : σ → List α → Option σ
  | s, [] => some s
  | s, a :: as => (M.step s a).bind (fun t => run t as)

/-- Every action, in the state it is taken in, satisfies `C`. -/
def Meets (C : σ → α → Prop) : σ → List α → Prop
  | _, [] => True
  | s, a :: as => C s a ∧ ∀ t ∈ M.step s a, Meets C t as

instance decidableMeets (C : σ → α → Prop) [∀ s a, Decidable (C s a)] :
    ∀ (s : σ) (as : List α), Decidable (M.Meets C s as)
  | _, [] => inferInstanceAs (Decidable True)
  | s, a :: as =>
      have : DecidablePred fun t => M.Meets C t as := fun t => decidableMeets C t as
      inferInstanceAs (Decidable (C s a ∧ ∀ t ∈ M.step s a, M.Meets C t as))

/-! ## Unfolding a run -/

@[simp] theorem run_nil (s : σ) : M.run s [] = some s := rfl

theorem run_cons (s : σ) (a : α) (as : List α) :
    M.run s (a :: as) = (M.step s a).bind (fun t => M.run t as) := rfl

theorem run_cons_eq_some {s t : σ} {a : α} {as : List α} :
    M.run s (a :: as) = some t ↔ ∃ u, M.step s a = some u ∧ M.run u as = some t := by
  rw [run_cons, Option.bind_eq_some_iff]

theorem run_append_eq_some {s t : σ} {as bs : List α} :
    M.run s (as ++ bs) = some t ↔ ∃ u, M.run s as = some u ∧ M.run u bs = some t := by
  induction as generalizing s with
  | nil => simp
  | cons a as ih =>
    rw [List.cons_append, run_cons_eq_some]
    constructor
    · rintro ⟨v, hv, hrun⟩
      obtain ⟨u, hu, hbs⟩ := ih.mp hrun
      exact ⟨u, (M.run_cons_eq_some).mpr ⟨v, hv, hu⟩, hbs⟩
    · rintro ⟨u, hu, hbs⟩
      obtain ⟨v, hv, hrun⟩ := (M.run_cons_eq_some).mp hu
      exact ⟨v, hv, ih.mpr ⟨u, hrun, hbs⟩⟩

theorem run_snoc_eq_some {s t : σ} {as : List α} {a : α} :
    M.run s (as ++ [a]) = some t ↔ ∃ u, M.run s as = some u ∧ M.step u a = some t := by
  rw [run_append_eq_some]
  simp [run_cons_eq_some]

@[simp] theorem run_singleton (s : σ) (a : α) : M.run s [a] = M.step s a := by
  rw [run_cons]
  cases M.step s a <;> rfl

/-- The state after a run that is known to be enabled. -/
def after (s : σ) (as : List α) (h : (M.run s as).isSome) : σ := (M.run s as).get h

theorem run_after {s : σ} {as bs : List α} (h : (M.run s as).isSome)
    (h' : (M.run s (as ++ bs)).isSome) :
    M.run (M.after s as h) bs = some (M.after s (as ++ bs) h') := by
  obtain ⟨u, hu, hbs⟩ := (M.run_append_eq_some).mp (Option.some_get h').symm
  have huafter : M.after s as h = u := by
    unfold after
    simp only [hu, Option.get_some]
  rw [huafter]
  exact hbs

theorem step_after (s : σ) (as : List α) (a : α) (h : (M.run s as).isSome)
    (h' : (M.run s (as ++ [a])).isSome) :
    M.step (M.after s as h) a = some (M.after s (as ++ [a]) h') := by
  rw [← run_singleton]
  exact M.run_after h h'

/-! ## Conditions along a run -/

@[simp] theorem meets_nil (C : σ → α → Prop) (s : σ) : M.Meets C s [] := trivial

theorem meets_cons {C : σ → α → Prop} {s : σ} {a : α} {as : List α} :
    M.Meets C s (a :: as) ↔ C s a ∧ ∀ t, M.step s a = some t → M.Meets C t as := Iff.rfl

theorem meets_append {C : σ → α → Prop} {s : σ} {as bs : List α} :
    M.Meets C s (as ++ bs) ↔
      M.Meets C s as ∧ ∀ t, M.run s as = some t → M.Meets C t bs := by
  induction as generalizing s with
  | nil => simp
  | cons a as ih =>
    simp only [List.cons_append, meets_cons, ih, run_cons_eq_some]
    constructor
    · rintro ⟨hC, hrest⟩
      exact ⟨⟨hC, fun t ht => (hrest t ht).1⟩,
        fun t ⟨u, hu, hrun⟩ => (hrest u hu).2 t hrun⟩
    · rintro ⟨⟨hC, hrest⟩, hbs⟩
      exact ⟨hC, fun u hu => ⟨hrest u hu, fun t hrun => hbs t ⟨u, hu, hrun⟩⟩⟩

/-- A condition that every action of the list meets anywhere. -/
theorem meets_of_forall_mem {C : σ → α → Prop} {s : σ} {as : List α}
    (h : ∀ a ∈ as, ∀ s, C s a) : M.Meets C s as := by
  induction as generalizing s with
  | nil => trivial
  | cons a as ih =>
    exact ⟨h a List.mem_cons_self s, fun t _ => ih fun b hb => h b (List.mem_cons_of_mem a hb)⟩

theorem meets_and {C D : σ → α → Prop} {s : σ} {as : List α} :
    M.Meets (fun s a => C s a ∧ D s a) s as ↔ M.Meets C s as ∧ M.Meets D s as := by
  induction as generalizing s with
  | nil => simp
  | cons a as ih =>
    simp only [meets_cons, ih]
    constructor
    · rintro ⟨⟨hC, hD⟩, hrest⟩
      exact ⟨⟨hC, fun t ht => (hrest t ht).1⟩, hD, fun t ht => (hrest t ht).2⟩
    · rintro ⟨⟨hC, hc⟩, hD, hd⟩
      exact ⟨⟨hC, hD⟩, fun t ht => ⟨hc t ht, hd t ht⟩⟩

/-- A condition met along a run is met by the step taken after any prefix of it. -/
theorem Meets.at_step {C : σ → α → Prop} {s t : σ} {as bs : List α} {a : α}
    (hm : M.Meets C s (as ++ a :: bs)) (hrun : M.run s as = some t) : C t a :=
  ((M.meets_append.mp hm).2 t hrun).1

/-- To meet a condition along an enabled run is to meet it at every step. -/
theorem meets_iff_forall_step {C : σ → α → Prop} {s t : σ} {as : List α}
    (hrun : M.run s as = some t) :
    M.Meets C s as ↔ ∀ pre a post u v, as = pre ++ a :: post → M.run s pre = some u →
      M.step u a = some v → C u a := by
  constructor
  · rintro hm pre a post u v rfl hu _
    exact Meets.at_step M hm hu
  · intro h
    induction as generalizing s with
    | nil => trivial
    | cons a as ih =>
      obtain ⟨v, hv, hrest⟩ := (M.run_cons_eq_some).mp hrun
      refine ⟨h [] a as s v rfl rfl hv, fun w hw => ?_⟩
      obtain rfl : v = w := Option.some.inj (hv.symm.trans hw)
      refine ih hrest fun pre b post x y heq hx hy => ?_
      exact h (a :: pre) b post x y (by rw [heq, List.cons_append])
        ((M.run_cons_eq_some).mpr ⟨v, hv, hx⟩) hy

/-! ## Invariants -/

/-- What every step meeting `C` preserves holds at the end of every run
whose steps meet `C`. -/
theorem run_invariant_of_meets {I : σ → Prop} {C : σ → α → Prop}
    (hstep : ∀ s a t, I s → C s a → M.step s a = some t → I t) :
    ∀ {as : List α} {s t : σ}, I s → M.Meets C s as → M.run s as = some t → I t
  | [], s, t, hI, _, hrun => by
      cases hrun
      exact hI
  | a :: as, s, t, hI, hm, hrun => by
      obtain ⟨u, hu, hrest⟩ := (M.run_cons_eq_some).mp hrun
      exact run_invariant_of_meets hstep (hstep s a u hI hm.1 hu) (hm.2 u hu) hrest

/-- The unconditional case. -/
theorem run_invariant {I : σ → Prop} (hstep : ∀ s a t, I s → M.step s a = some t → I t)
    {as : List α} {s t : σ} (hI : I s) (hrun : M.run s as = some t) : I t := by
  have hm : M.Meets (fun _ _ => True) s as := by
    induction as generalizing s with
    | nil => trivial
    | cons a as ih =>
      refine ⟨trivial, fun u hu => ?_⟩
      obtain ⟨v, hv, hrest⟩ := (M.run_cons_eq_some).mp hrun
      rw [Option.mem_def.mp hu] at hv
      cases hv
      exact ih (hstep s a u hI hu) hrest
  exact M.run_invariant_of_meets (fun s a t hs _ ht => hstep s a t hs ht) hI hm hrun

/-- An invariant of the steps meeting `D` discharges a condition `C` that
the invariant implies. -/
theorem meets_of_invariant {I : σ → Prop} {C D : σ → α → Prop}
    (hstep : ∀ s a t, I s → D s a → M.step s a = some t → I t)
    (himp : ∀ s a, I s → D s a → C s a) :
    ∀ {as : List α} {s : σ}, I s → M.Meets D s as → M.Meets C s as
  | [], _, _, _ => trivial
  | a :: _, s, hI, hm =>
      ⟨himp s a hI hm.1,
        fun u hu => meets_of_invariant hstep himp (hstep s a u hI hm.1 hu) (hm.2 u hu)⟩

/-- Every state that the run passes through satisfies `P`. -/
def Always (P : σ → Prop) (s : σ) (as : List α) : Prop :=
  ∀ pre u, pre <+: as → M.run s pre = some u → P u

/-- When the steps that meet `C` preserve `I`, and the others lead from `I` out of `P`,
then a run stays in `P` exactly when its steps all meet `C`. -/
theorem always_iff_meets {I P : σ → Prop} {C : σ → α → Prop} (hIP : ∀ s, I s → P s)
    (hgood : ∀ s a t, I s → C s a → M.step s a = some t → I t)
    (hbad : ∀ s a t, I s → ¬C s a → M.step s a = some t → ¬P t)
    {as : List α} {s t : σ} (hI : I s) (hrun : M.run s as = some t) :
    M.Always P s as ↔ M.Meets C s as := by
  constructor
  · intro halways
    induction as generalizing s with
    | nil => trivial
    | cons a as ih =>
      obtain ⟨u, hu, hrest⟩ := (M.run_cons_eq_some).mp hrun
      have hC : C s a := by
        by_contra hC
        refine hbad s a u hI hC hu (halways [a] u ?_ ?_)
        · exact ⟨as, rfl⟩
        · rw [run_singleton, hu]
      refine ⟨hC, fun v hv => ?_⟩
      obtain rfl : u = v := Option.some.inj (hu.symm.trans hv)
      refine ih (hgood s a u hI hC hu) hrest fun pre w hpre hw => ?_
      exact halways (a :: pre) w (List.cons_prefix_cons.mpr ⟨rfl, hpre⟩)
        ((M.run_cons_eq_some).mpr ⟨u, hu, hw⟩)
  · rintro hm pre u ⟨post, rfl⟩ hu
    exact hIP u (M.run_invariant_of_meets hgood hI ((M.meets_append).mp hm).1 hu)

/-! ## History variables -/

variable {η : Type v}

/-- The machine with a history: a value that every step updates and no step reads. -/
def withHistory (upd : σ → α → σ → η → η) : Machine (σ × η) α :=
  ⟨fun s a => (M.step s.1 a).map (fun t => (t, upd s.1 a t s.2))⟩

theorem step_withHistory {upd : σ → α → σ → η → η} {s t : σ} {a : α} {h k : η} :
    (M.withHistory upd).step (s, h) a = some (t, k) ↔ M.step s a = some t ∧ k = upd s a t h := by
  simp only [withHistory, Option.map_eq_some_iff, Prod.mk.injEq]
  constructor
  · rintro ⟨u, hu, rfl, rfl⟩
    exact ⟨hu, rfl⟩
  · rintro ⟨hu, rfl⟩
    exact ⟨t, hu, rfl, rfl⟩

theorem meets_withHistory (upd : σ → α → σ → η → η) (h : η) {C : σ → α → Prop} {as : List α}
    {s : σ} (hm : M.Meets C s as) : (M.withHistory upd).Meets (fun x a => C x.1 a) (s, h) as := by
  induction as generalizing s h with
  | nil => trivial
  | cons a as ih =>
    refine ⟨hm.1, ?_⟩
    rintro ⟨t, k⟩ ht
    exact ih _ (hm.2 t (M.step_withHistory.mp ht).1)

end Machine

end NeuralHub.Lib
