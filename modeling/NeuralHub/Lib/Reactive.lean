/-
NeuralHub.Lib.Reactive — machines whose steps return a value, and lockstep
simulation between two of them.

`Alike Q O s t as` compares two machines that are fed the same inputs `as`:
at every input either both are disabled, and the comparison ends, or both
step, return values related by `Q` and reach states related by the
observation `O`.

`alike_of_simulation` is the one rule: a relation between the states that
every step meeting `C` preserves, that relates the returned values, and
that implies the observation, makes the machines alike on every sequence
of inputs that meets `C`.
-/
import NeuralHub.Lib.Machine

namespace NeuralHub.Lib

universe u v w

/-- A machine that answers each input. -/
structure Reactive (σ : Type u) (α : Type v) (β : Type w) where
  step : σ → α → Option (σ × β)

namespace Reactive

variable {σ τ : Type u} {α : Type v} {β γ : Type w}

/-- Forget the answers. -/
def toMachine (M : Reactive σ α β) : Machine σ α := ⟨fun s a => (M.step s a).map (·.1)⟩

/-- Two machines that cannot be told apart by `Q` and `O` on these inputs. -/
def Alike (M : Reactive σ α β) (N : Reactive τ α γ) (Q : β → γ → Prop) (O : σ → τ → Prop) :
    σ → τ → List α → Prop
  | _, _, [] => True
  | s, t, a :: as =>
      Option.Rel (fun x y => Q x.2 y.2 ∧ O x.1 y.1 ∧ Alike M N Q O x.1 y.1 as)
        (M.step s a) (N.step t a)

theorem alike_of_simulation {M : Reactive σ α β} {N : Reactive τ α γ} {Q : β → γ → Prop}
    {O R : σ → τ → Prop} {C : σ → α → Prop}
    (hstep : ∀ s t a, R s t → C s a →
      Option.Rel (fun x y => R x.1 y.1 ∧ Q x.2 y.2) (M.step s a) (N.step t a))
    (hobs : ∀ s t, R s t → O s t) {as : List α} :
    ∀ {s : σ} {t : τ}, R s t → M.toMachine.Meets C s as → Alike M N Q O s t as := by
  induction as with
  | nil => exact fun _ _ => trivial
  | cons a as ih =>
    intro s t hR hm
    have hrel := hstep s t a hR hm.1
    rw [Alike]
    rcases hM : M.step s a with _ | x <;> rcases hN : N.step t a with _ | y <;>
      rw [hM, hN] at hrel
    · exact .none
    · cases hrel
    · cases hrel
    · cases hrel with
      | some hxy =>
        have hnext : M.toMachine.step s a = some x.1 := by simp [toMachine, hM]
        exact .some ⟨hxy.2, hobs x.1 y.1 hxy.1, ih hxy.1 (hm.2 x.1 hnext)⟩

/-- What an alike pair answers to the last input, and where it gets. -/
theorem Alike.last {M : Reactive σ α β} {N : Reactive τ α γ} {Q : β → γ → Prop}
    {O : σ → τ → Prop} {as : List α} {a : α} {s' : σ} {t' : τ} {x : σ × β} {y : τ × γ} :
    ∀ {s : σ} {t : τ}, Alike M N Q O s t (as ++ [a]) →
      M.toMachine.run s as = some s' → N.toMachine.run t as = some t' →
      M.step s' a = some x → N.step t' a = some y → Q x.2 y.2 ∧ O x.1 y.1 := by
  induction as with
  | nil =>
    intro s t h hs ht hx hy
    cases hs
    cases ht
    rw [List.nil_append, Alike, hx, hy] at h
    cases h with
    | some hxy => exact ⟨hxy.1, hxy.2.1⟩
  | cons b as ih =>
    intro s t h hs ht hx hy
    obtain ⟨u, hu, hs⟩ := (M.toMachine.run_cons_eq_some).mp hs
    obtain ⟨v, hv, ht⟩ := (N.toMachine.run_cons_eq_some).mp ht
    obtain ⟨p, hp, rfl⟩ := Option.map_eq_some_iff.mp hu
    obtain ⟨q, hq, rfl⟩ := Option.map_eq_some_iff.mp hv
    rw [List.cons_append, Alike, hp, hq] at h
    cases h with
    | some hpq => exact ih hpq.2.2 hs ht hx hy

end Reactive

end NeuralHub.Lib
