/-
NeuralHub.Lib.Separators — two texts joined by a separator.

`afterFirst` is `str.split(separator, maxsplit=1)[-1]`: the whole text when
the separator does not occur.

A text `t ++ separator ++ e` can be taken apart in one way only, provided
that the separator occurs in no left part and that no right part starts
with a character of the separator (`append_separator_inj`). Without the
second condition a separator that overlaps itself can be shifted: with
`aa`, the text `aaab` is `` joined to `ab` and `a` joined to `b`.
-/
import Mathlib.Data.List.Infix

namespace NeuralHub.Lib

universe u

variable {α : Type u}

/-- What stands behind the first occurrence of the separator. -/
def behindFirst [DecidableEq α] (separator : List α) : List α → Option (List α)
  | [] => none
  | c :: rest =>
    if separator.isPrefixOf (c :: rest) then some ((c :: rest).drop separator.length)
    else behindFirst separator rest

def afterFirst [DecidableEq α] (separator s : List α) : List α :=
  (behindFirst separator s).getD s

/-- One of two left parts of the same text is the longer one, and what it has more of is
the beginning of what follows the other. -/
theorem append_separator_le {separator t u e f : List α} (hu : ¬ separator <:+: u)
    (he : ∀ c ∈ e.head?, c ∉ separator) (hne : e ≠ [])
    (h : t ++ separator ++ e = u ++ separator ++ f) (hle : t.length ≤ u.length) :
    t = u ∧ e = f := by
  rw [List.append_assoc, List.append_assoc] at h
  obtain ⟨v, rfl⟩ : t <+: u :=
    List.prefix_of_prefix_length_le ⟨_, h⟩ ⟨_, rfl⟩ hle
  rw [List.append_assoc, List.append_cancel_left_eq] at h
  rcases Nat.lt_or_ge v.length separator.length with hlt | hge
  · -- the two separators overlap, or coincide when nothing stands between
    cases v with
    | nil =>
      rw [List.nil_append] at h
      refine ⟨(List.append_nil t).symm, List.append_cancel_left h⟩
    | cons c v =>
      exfalso
      obtain ⟨a, e, rfl⟩ := List.exists_cons_of_ne_nil hne
      refine he a (by simp) ?_
      have hget : (separator ++ a :: e)[separator.length]? = some a := by
        rw [List.getElem?_append_right (Nat.le_refl _), Nat.sub_self]
        rfl
      rw [h, List.getElem?_append_right (Nat.le_of_lt hlt), List.getElem?_append_left] at hget
      · exact List.mem_of_getElem? hget
      · rw [List.length_cons]
        rw [List.length_cons] at hlt
        omega
  · exfalso
    refine hu ?_
    obtain ⟨w, rfl⟩ : separator <+: v := List.prefix_of_prefix_length_le ⟨_, h⟩ ⟨_, rfl⟩ hge
    exact ⟨t, w, by rw [List.append_assoc]⟩

/-- The parts of a joined text are determined by it. -/
theorem append_separator_inj {separator t u e f : List α} (ht : ¬ separator <:+: t)
    (hu : ¬ separator <:+: u) (he : ∀ c ∈ e.head?, c ∉ separator) (hene : e ≠ [])
    (hf : ∀ c ∈ f.head?, c ∉ separator) (hfne : f ≠ [])
    (h : t ++ separator ++ e = u ++ separator ++ f) : t = u ∧ e = f := by
  rcases Nat.le_total t.length u.length with hle | hle
  · exact append_separator_le hu he hene h hle
  · obtain ⟨hut, hfe⟩ := append_separator_le ht hf hfne h.symm hle
    exact ⟨hut.symm, hfe.symm⟩

end NeuralHub.Lib
