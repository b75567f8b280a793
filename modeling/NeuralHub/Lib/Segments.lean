/-
NeuralHub.Lib.Segments — the non-empty parts of a text between its breaks.

A text that is read in pieces, from either end, can lose empty lines where
a piece begins with a break; it never loses a segment. `segments_append`
cuts a text at any break, so a pair of break characters may stand in two
pieces. The segments are the lines of the text that are not empty
(`segments_eq_lines`), and `segments_first_line` is a step of reading
backwards: of a piece all but the first line is complete.
-/
import NeuralHub.Lib.TextLines

namespace NeuralHub.Lib

universe u

variable {α : Type u} {p : α → Bool} {a : α} {s xs ys : List α}

/-- The parts that are not empty. -/
def nonEmptyParts (parts : List (List α)) : List (List α) := parts.filter fun part => !part.isEmpty

@[simp] theorem nonEmptyParts_nil : nonEmptyParts ([] : List (List α)) = [] := rfl

@[simp] theorem nonEmptyParts_cons_nil (parts : List (List α)) :
    nonEmptyParts ([] :: parts) = nonEmptyParts parts := rfl

theorem nonEmptyParts_cons_of_ne {part : List α} (h : part ≠ []) (parts : List (List α)) :
    nonEmptyParts (part :: parts) = part :: nonEmptyParts parts :=
  List.filter_cons_of_pos (by simpa using h)

@[simp] theorem nonEmptyParts_append (xs ys : List (List α)) :
    nonEmptyParts (xs ++ ys) = nonEmptyParts xs ++ nonEmptyParts ys := List.filter_append _ _

theorem nonEmptyParts_reverse (parts : List (List α)) :
    nonEmptyParts parts.reverse = (nonEmptyParts parts).reverse := List.filter_reverse

theorem mem_nonEmptyParts {part : List α} {parts : List (List α)} :
    part ∈ nonEmptyParts parts ↔ part ∈ parts ∧ part ≠ [] := by
  unfold nonEmptyParts
  rw [List.mem_filter]
  simp

def segments (p : α → Bool) (s : List α) : List (List α) := nonEmptyParts (s.splitOnP p)

@[simp] theorem segments_nil : segments p [] = [] := by simp [segments]

/-- A text is cut at any break. -/
theorem segments_append (ha : p a = true) (xs ys : List α) :
    segments p (xs ++ a :: ys) = segments p xs ++ segments p ys := by
  unfold segments
  rw [List.splitOnP_append_cons xs ys ha, nonEmptyParts_append]

theorem segments_cons_break (ha : p a = true) (s : List α) :
    segments p (a :: s) = segments p s := by
  have happend := segments_append ha [] s
  simpa using happend

theorem segments_unbroken (h : ∀ x ∈ s, p x = false) : segments p s = nonEmptyParts [s] := by
  unfold segments
  rw [List.splitOnP_eq_singleton h]

variable [DecidableEq α] {b : Breaks α} {e : List α}

/-- An ending has no segment, and separates. -/
theorem segments_ending (he : Ending b e s) (xs : List α) :
    segments b.brk (xs ++ (e ++ s)) = segments b.brk xs ++ segments b.brk s := by
  cases he with
  | @one a s ha _ => exact segments_append ha xs s
  | two =>
    rw [List.cons_append, List.singleton_append, segments_append b.brk_cr,
      segments_cons_break b.brk_lf]

theorem segments_eq_lines (b : Breaks α) (s : List α) :
    segments b.brk s = nonEmptyParts ((linesOf b s).map Line.content) := by
  induction s using lines_induction (b := b) with
  | nil => simp
  | last content hcontent hne =>
    rw [segments_unbroken hcontent, linesOf_last hcontent hne]
    rfl
  | line content e s hcontent he ih =>
    rw [segments_ending he, segments_unbroken hcontent, linesOf_line hcontent he, ih,
      List.map_cons, ← nonEmptyParts_append]
    rfl

/-- The lines behind the first one are complete, the first one may begin earlier. -/
theorem segments_first_line {line : Line α} {lines : List (Line α)}
    (h : linesOf b s = line :: lines) (before : List α) :
    segments b.brk (before ++ s) =
      segments b.brk (before ++ line.content) ++ nonEmptyParts (lines.map Line.content) := by
  induction s using lines_induction (b := b) with
  | nil => cases h
  | last content hcontent hne =>
    rw [linesOf_last hcontent hne] at h
    obtain ⟨rfl, rfl⟩ := List.cons.inj h
    simp
  | line content e s hcontent he ih =>
    rw [linesOf_line hcontent he] at h
    obtain ⟨rfl, rfl⟩ := List.cons.inj h
    rw [← List.append_assoc, segments_ending he, segments_eq_lines b s]

end NeuralHub.Lib
