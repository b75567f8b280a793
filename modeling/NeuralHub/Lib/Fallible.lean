/-
NeuralHub.Lib.Fallible — `List.mapM` with functions that may fail.

A comprehension whose body may raise is a `mapM` in `Except`. Either it
fails with what one of its elements fails with, or each element has its
value.
-/
import Mathlib.Data.List.Basic

namespace NeuralHub.Lib

universe u

variable {ε : Type} {α β : Type u} {f : α → Except ε β} {xs : List α} {ys : List β}

theorem mapM_cons_eq_ok {x : α} {xs : List α} (h : (x :: xs).mapM f = .ok ys) :
    ∃ y ys', f x = .ok y ∧ xs.mapM f = .ok ys' ∧ ys = y :: ys' := by
  rw [List.mapM_cons] at h
  cases hx : f x with
  | error e =>
    rw [hx] at h
    cases h
  | ok y =>
    cases hxs : xs.mapM f with
    | error e =>
      rw [hx, hxs] at h
      cases h
    | ok ys' =>
      rw [hx, hxs] at h
      cases h
      exact ⟨y, ys', rfl, rfl, rfl⟩

theorem mapM_eq_error {e : ε} (h : xs.mapM f = .error e) : ∃ x ∈ xs, f x = .error e := by
  induction xs with
  | nil => cases h
  | cons x xs ih =>
    rw [List.mapM_cons] at h
    cases hx : f x with
    | error e =>
      rw [hx] at h
      cases h
      exact ⟨x, List.mem_cons_self, hx⟩
    | ok y =>
      cases hxs : xs.mapM f with
      | error e =>
        rw [hx, hxs] at h
        cases h
        obtain ⟨x', hx', he⟩ := ih hxs
        exact ⟨x', List.mem_cons_of_mem x hx', he⟩
      | ok ys =>
        rw [hx, hxs] at h
        cases h

theorem mapM_eq_ok_mem (h : xs.mapM f = .ok ys) {x : α} (hx : x ∈ xs) :
    ∃ y ∈ ys, f x = .ok y := by
  induction xs generalizing ys with
  | nil => cases hx
  | cons x' xs ih =>
    obtain ⟨y, ys', hy, hys, rfl⟩ := mapM_cons_eq_ok h
    rcases List.mem_cons.mp hx with rfl | hx
    · exact ⟨y, List.mem_cons_self, hy⟩
    · obtain ⟨z, hz, hfz⟩ := ih hys hx
      exact ⟨z, List.mem_cons_of_mem y hz, hfz⟩

theorem mem_of_mapM_eq_ok (h : xs.mapM f = .ok ys) {y : β} (hy : y ∈ ys) :
    ∃ x ∈ xs, f x = .ok y := by
  induction xs generalizing ys with
  | nil =>
    cases h
    cases hy
  | cons x xs ih =>
    obtain ⟨y', ys', hy', hys, rfl⟩ := mapM_cons_eq_ok h
    rcases List.mem_cons.mp hy with rfl | hy
    · exact ⟨x, List.mem_cons_self, hy'⟩
    · obtain ⟨z, hz, hfz⟩ := ih hys hy
      exact ⟨z, List.mem_cons_of_mem x hz, hfz⟩

/-- What the function leaves unchanged. -/
theorem map_eq_map_of_mapM {γ : Type*} {g : α → γ} {g' : β → γ}
    (hg : ∀ x y, f x = .ok y → g' y = g x) (h : xs.mapM f = .ok ys) : ys.map g' = xs.map g := by
  induction xs generalizing ys with
  | nil =>
    cases h
    rfl
  | cons x xs ih =>
    obtain ⟨y, ys', hy, hys, rfl⟩ := mapM_cons_eq_ok h
    rw [List.map_cons, List.map_cons, hg x y hy, ih hys]

/-- A comprehension that keeps the element beside its value. -/
theorem mapM_pair_eq_ok {ps : List (α × β)}
    (h : xs.mapM (fun x => (f x).map fun y => (x, y)) = .ok ps) :
    ps.map Prod.fst = xs ∧ ∀ p ∈ ps, f p.1 = .ok p.2 := by
  induction xs generalizing ps with
  | nil =>
    cases h
    exact ⟨rfl, nofun⟩
  | cons x xs ih =>
    obtain ⟨p, ps', hp, hps, rfl⟩ := mapM_cons_eq_ok h
    obtain ⟨hfst, hall⟩ := ih hps
    cases hx : f x with
    | error e =>
      rw [hx] at hp
      cases hp
    | ok y =>
      rw [hx] at hp
      cases hp
      refine ⟨congrArg (x :: ·) hfst, fun q hq => ?_⟩
      rcases List.mem_cons.mp hq with rfl | hq
      · exact hx
      · exact hall q hq

/-! ## Deciding what a success satisfies -/

section Decide

variable {γ : Type*} {x : Except ε γ} {P : γ → Prop}

instance decidableForallOk [DecidablePred P] : Decidable (∀ a, x = .ok a → P a) :=
  match x with
  | .error _ => isTrue nofun
  | .ok a => decidable_of_iff (P a) ⟨by rintro h _ ⟨⟩; exact h, fun h => h a rfl⟩

instance decidableExistsOk : Decidable (∃ a, x = .ok a) :=
  match x with
  | .error _ => isFalse nofun
  | .ok a => isTrue ⟨a, rfl⟩

end Decide

end NeuralHub.Lib
