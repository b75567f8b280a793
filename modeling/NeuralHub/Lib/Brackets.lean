/-
NeuralHub.Lib.Brackets — reading a text by the brackets in it.

Of a text only the brackets count: `depth n text` is how many brackets are
open behind it when `n` were open in front, and `none` when it closes one
that was not open. `afterClose n text` is what is left behind the bracket
that closes the outermost of `n + 1` open ones. A `Balanced` text opens
and closes its own brackets only, so a reader may step over it
(`Balanced.depth`).

`afterClose_eq_some_iff` cuts a text at the closing bracket;
`depth_of_afterClose_eq_none` is the other case, where the outermost
bracket stays open.
-/
import Mathlib.Data.List.Basic

namespace NeuralHub.Lib

universe u

structure Brackets (α : Type u) where
  opens : α → Bool
  closes : α → Bool
  /-- no character opens and closes -/
  disjoint : ∀ x, opens x = true → closes x = false

namespace Brackets

variable {α : Type u} (B : Brackets α)

def depth : Nat → List α → Option Nat
  | n, [] => some n
  | n, x :: rest =>
    if B.opens x then depth (n + 1) rest
    else if B.closes x then
      match n with
      | 0 => none
      | n + 1 => depth n rest
    else depth n rest

def afterClose : Nat → List α → Option (List α)
  | _, [] => none
  | n, x :: rest =>
    if B.opens x then afterClose (n + 1) rest
    else if B.closes x then
      match n with
      | 0 => some rest
      | n + 1 => afterClose n rest
    else afterClose n rest

def Balanced (text : List α) : Prop := B.depth 0 text = some 0

instance (text : List α) : Decidable (B.Balanced text) :=
  inferInstanceAs (Decidable (_ = _))

variable {B} {n m : Nat} {x : α} {text inner rest xs ys : List α}

/-! ## One character -/

theorem cases_of (B : Brackets α) (x : α) :
    B.opens x = true ∨ B.closes x = true ∨ (B.opens x = false ∧ B.closes x = false) := by
  cases ho : B.opens x <;> cases hc : B.closes x <;> simp

theorem not_opens (hc : B.closes x = true) : B.opens x = false := by
  cases ho : B.opens x with
  | false => rfl
  | true => simp [B.disjoint x ho] at hc

@[simp] theorem depth_nil : B.depth n [] = some n := rfl

theorem depth_of_opens (ho : B.opens x = true) :
    B.depth n (x :: rest) = B.depth (n + 1) rest := if_pos ho

theorem depth_of_not_opens (ho : B.opens x = false) :
    B.depth n (x :: rest) =
      if B.closes x then
        match n with
        | 0 => none
        | n + 1 => B.depth n rest
      else B.depth n rest :=
  if_neg (by simp [ho])

theorem depth_of_closes (hc : B.closes x = true) :
    B.depth (n + 1) (x :: rest) = B.depth n rest := by
  rw [depth_of_not_opens (not_opens hc), if_pos hc]

theorem depth_zero_of_closes (hc : B.closes x = true) : B.depth 0 (x :: rest) = none := by
  rw [depth_of_not_opens (not_opens hc), if_pos hc]

theorem depth_of_other (h : B.opens x = false ∧ B.closes x = false) :
    B.depth n (x :: rest) = B.depth n rest := by
  rw [depth_of_not_opens h.1, if_neg (by simp [h.2])]

@[simp] theorem afterClose_nil : B.afterClose n [] = none := rfl

theorem afterClose_of_opens (ho : B.opens x = true) :
    B.afterClose n (x :: rest) = B.afterClose (n + 1) rest := if_pos ho

theorem afterClose_of_not_opens (ho : B.opens x = false) :
    B.afterClose n (x :: rest) =
      if B.closes x then
        match n with
        | 0 => some rest
        | n + 1 => B.afterClose n rest
      else B.afterClose n rest :=
  if_neg (by simp [ho])

theorem afterClose_of_closes (hc : B.closes x = true) :
    B.afterClose (n + 1) (x :: rest) = B.afterClose n rest := by
  rw [afterClose_of_not_opens (not_opens hc), if_pos hc]

theorem afterClose_zero_of_closes (hc : B.closes x = true) :
    B.afterClose 0 (x :: rest) = some rest := by
  rw [afterClose_of_not_opens (not_opens hc), if_pos hc]

theorem afterClose_of_other (h : B.opens x = false ∧ B.closes x = false) :
    B.afterClose n (x :: rest) = B.afterClose n rest := by
  rw [afterClose_of_not_opens h.1, if_neg (by simp [h.2])]

/-! ## Composition -/

/-- Brackets that were open in front stay open behind what closes only its own. -/
theorem depth_add (k : Nat) (h : B.depth n xs = some m) : B.depth (n + k) xs = some (m + k) := by
  induction xs generalizing n with
  | nil =>
    rw [depth_nil, Option.some.injEq] at h
    rw [depth_nil, h]
  | cons x xs ih =>
    rcases B.cases_of x with ho | hc | hother
    · rw [depth_of_opens ho] at h ⊢
      rw [Nat.add_right_comm]
      exact ih h
    · cases n with
      | zero =>
        rw [depth_zero_of_closes hc] at h
        cases h
      | succ n =>
        rw [depth_of_closes hc] at h
        rw [Nat.add_right_comm, depth_of_closes hc]
        exact ih h
    · rw [depth_of_other hother] at h ⊢
      exact ih h

theorem depth_append (h : B.depth n xs = some m) : B.depth n (xs ++ ys) = B.depth m ys := by
  induction xs generalizing n with
  | nil =>
    rw [depth_nil, Option.some.injEq] at h
    rw [List.nil_append, h]
  | cons x xs ih =>
    rw [List.cons_append]
    rcases B.cases_of x with ho | hc | hother
    · rw [depth_of_opens ho] at h ⊢
      exact ih h
    · cases n with
      | zero =>
        rw [depth_zero_of_closes hc] at h
        cases h
      | succ n =>
        rw [depth_of_closes hc] at h ⊢
        exact ih h
    · rw [depth_of_other hother] at h ⊢
      exact ih h

theorem Balanced.depth (h : B.Balanced xs) (n : Nat) : B.depth n xs = some n := by
  have hadd := depth_add n h
  rwa [Nat.zero_add] at hadd

theorem afterClose_append (h : B.depth n xs = some m) :
    B.afterClose n (xs ++ ys) = B.afterClose m ys := by
  induction xs generalizing n with
  | nil =>
    rw [depth_nil, Option.some.injEq] at h
    rw [List.nil_append, h]
  | cons x xs ih =>
    rw [List.cons_append]
    rcases B.cases_of x with ho | hc | hother
    · rw [depth_of_opens ho] at h
      rw [afterClose_of_opens ho]
      exact ih h
    · cases n with
      | zero =>
        rw [depth_zero_of_closes hc] at h
        cases h
      | succ n =>
        rw [depth_of_closes hc] at h
        rw [afterClose_of_closes hc]
        exact ih h
    · rw [depth_of_other hother] at h
      rw [afterClose_of_other hother]
      exact ih h

/-! ## The closing bracket -/

/-- A text is cut at the bracket that closes the outermost open one. -/
theorem afterClose_eq_some_iff :
    B.afterClose n text = some rest ↔
      ∃ inner x, text = inner ++ x :: rest ∧ B.closes x = true ∧ B.depth n inner = some 0 := by
  constructor
  · intro h
    induction text generalizing n with
    | nil => cases h
    | cons y text ih =>
      rcases B.cases_of y with ho | hc | hother
      · rw [afterClose_of_opens ho] at h
        obtain ⟨inner, x, rfl, hx, hd⟩ := ih h
        exact ⟨y :: inner, x, rfl, hx, (depth_of_opens ho).trans hd⟩
      · cases n with
        | zero =>
          rw [afterClose_zero_of_closes hc] at h
          exact ⟨[], y, congrArg _ (Option.some.inj h), hc, rfl⟩
        | succ n =>
          rw [afterClose_of_closes hc] at h
          obtain ⟨inner, x, rfl, hx, hd⟩ := ih h
          exact ⟨y :: inner, x, rfl, hx, (depth_of_closes hc).trans hd⟩
      · rw [afterClose_of_other hother] at h
        obtain ⟨inner, x, rfl, hx, hd⟩ := ih h
        exact ⟨y :: inner, x, rfl, hx, (depth_of_other hother).trans hd⟩
  · rintro ⟨inner, x, rfl, hx, hd⟩
    rw [afterClose_append hd, afterClose_zero_of_closes hx]

theorem length_of_afterClose (h : B.afterClose n text = some rest) :
    rest.length < text.length := by
  obtain ⟨inner, x, rfl, -, -⟩ := afterClose_eq_some_iff.mp h
  rw [List.length_append, List.length_cons]
  omega

/-- A text that leaves the outermost bracket open closes no more than was open. -/
theorem depth_of_afterClose_eq_none (h : B.afterClose n text = none) :
    ∃ m, B.depth n text = some m := by
  induction text generalizing n with
  | nil => exact ⟨n, rfl⟩
  | cons x text ih =>
    rcases B.cases_of x with ho | hc | hother
    · rw [afterClose_of_opens ho] at h
      rw [depth_of_opens ho]
      exact ih h
    · cases n with
      | zero =>
        rw [afterClose_zero_of_closes hc] at h
        cases h
      | succ n =>
        rw [afterClose_of_closes hc] at h
        rw [depth_of_closes hc]
        exact ih h
    · rw [afterClose_of_other hother] at h
      rw [depth_of_other hother]
      exact ih h

end Brackets

end NeuralHub.Lib
