/-
NeuralHub.Lib.Counts — how many elements of a list have a property, when
one of them is replaced.

`countP_set_add` is the exact equation, from which the bounds follow;
`countP_set_le` is for an element that may not be there.
-/
import Mathlib.Data.List.Basic

namespace NeuralHub.Lib

universe u

variable {α : Type u} {p : α → Bool} {xs : List α} {i : Nat} {old new : α}

theorem countP_set_add (h : xs[i]? = some old) (new : α) :
    (xs.set i new).countP p + (if p old then 1 else 0) =
      xs.countP p + if p new then 1 else 0 := by
  obtain ⟨hlt, hget⟩ := List.getElem?_eq_some_iff.mp h
  rw [List.countP_set hlt, hget]
  by_cases hold : p old = true
  · have hpos := List.countP_pos_iff.mpr ⟨old, List.mem_of_getElem? h, hold⟩
    rw [if_pos hold]
    omega
  · rw [if_neg hold]
    omega

theorem countP_set_le_of_imp (h : xs[i]? = some old) (himp : p new = true → p old = true) :
    (xs.set i new).countP p ≤ xs.countP p := by
  have hset := countP_set_add (p := p) h new
  by_cases hnew : p new = true
  · rw [if_pos hnew, if_pos (himp hnew)] at hset
    omega
  · rw [if_neg hnew] at hset
    omega

theorem countP_set_le_succ (p : α → Bool) (h : xs[i]? = some old) (new : α) :
    (xs.set i new).countP p ≤ xs.countP p + 1 := by
  have hset := countP_set_add (p := p) h new
  by_cases hnew : p new = true
  · rw [if_pos hnew] at hset
    omega
  · rw [if_neg hnew] at hset
    omega

theorem countP_set_le (h : p new = false) : (xs.set i new).countP p ≤ xs.countP p := by
  by_cases hlt : i < xs.length
  · rw [List.countP_set hlt, h]
    simp
  · have hsame : xs.set i new = xs := List.set_eq_of_length_le (Nat.not_lt.mp hlt)
    exact Nat.le_of_eq (congrArg (List.countP p) hsame)

end NeuralHub.Lib
