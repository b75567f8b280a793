/-
NeuralHub.FileEdit.LineNumbers — the loops of `_line_numbers_for_offsets`
and `_match_offsets` (`file_edit.py`).

`_line_numbers_for_offsets` goes through the text once. It carries a line
number and the place of the next newline from one offset to the next; the
invariant of the cursor is that both belong to the last offset
(`advance_eq`), so that the line numbers are those of the plain count.

`_match_offsets` searches again behind each occurrence. It computes what
`matchOffsets` does in one scan (`matchOffsetsFrom_eq`), and these are the
leftmost occurrences that do not overlap.

Both are `while` loops; they run on fuel here, and the length of the text
is enough of it.
-/
import NeuralHub.FileEdit.Tools

namespace NeuralHub.FileEdit

open Lib

/-! ## The loops -/

def newline : CodePoint := .char '\n'

/-- The `while` loop over the newlines in front of an offset. -/
def advance (content : Str) (offset : Nat) :
    (fuel lineNumber : Nat) → (newlineIndex : Option Nat) → Option (Nat × Option Nat)
  | 0, _, _ => none
  | _ + 1, lineNumber, none => some (lineNumber, none)
  | fuel + 1, lineNumber, some newlineIndex =>
    if newlineIndex < offset then
      advance content offset fuel (lineNumber + 1) (find [newline] content (newlineIndex + 1))
    else some (lineNumber, some newlineIndex)

/-- The `for` loop, with the lines of the offsets before. -/
def lineNumbersFrom (fuel : Nat) (content : Str) :
    (lineNumber : Nat) → (newlineIndex : Option Nat) → (lines offsets : List Nat) →
      Option (List Nat)
  | _, _, lines, [] => some lines
  | lineNumber, newlineIndex, lines, offset :: offsets =>
    match advance content offset fuel lineNumber newlineIndex with
    | none => none
    | some (lineNumber, newlineIndex) =>
      lineNumbersFrom fuel content lineNumber newlineIndex (lines ++ [lineNumber]) offsets

/-- `_line_numbers_for_offsets`; `none` stands for running out of fuel. -/
def lineNumbersForOffsets (fuel : Nat) (content : Str) (offsets : List Nat) :
    Option (List Nat) :=
  lineNumbersFrom fuel content 1 (find [newline] content 0) [] offsets

/-- The `while` loop of `_match_offsets`, with the offsets found before. -/
def matchOffsetsFrom (content oldStr : Str) :
    (fuel start : Nat) → (offsets : List Nat) → Option (List Nat)
  | 0, _, _ => none
  | fuel + 1, start, offsets =>
    match find oldStr content start with
    | none => some offsets
    | some index =>
      matchOffsetsFrom content oldStr fuel (index + oldStr.length) (offsets ++ [index])

/-! ## Newlines in front of a place -/

variable {content oldStr : Str} {k m i : Nat}

theorem mem_positions_newline :
    i ∈ positions [newline] content ↔ content[i]? = some newline := by
  rw [mem_positions (List.cons_ne_nil _ _), ← List.head?_drop]
  cases content.drop i with
  | nil => simp
  | cons c rest => simp [eq_comm]

theorem count_take_succ (h : content[i]? = some newline) :
    (content.take (i + 1)).count newline = (content.take i).count newline + 1 := by
  rw [List.take_add_one, h, List.count_append]
  rfl

/-- Between two places without a newline the count stays. -/
theorem count_take_of_none (hle : k ≤ m)
    (h : ∀ j ∈ positions [newline] content, k ≤ j → m ≤ j) :
    (content.take m).count newline = (content.take k).count newline := by
  obtain ⟨n, rfl⟩ := Nat.exists_eq_add_of_le hle
  have hnone : newline ∉ (content.drop k).take n := by
    intro hmem
    obtain ⟨p, hp⟩ := List.mem_iff_getElem?.mp hmem
    rw [List.getElem?_take] at hp
    split at hp
    · next hlt =>
      rw [List.getElem?_drop] at hp
      have := h (k + p) (mem_positions_newline.mpr hp) (Nat.le_add_right k p)
      omega
    · cases hp
  rw [List.take_add, List.count_append, List.count_eq_zero_of_not_mem hnone, Nat.add_zero]

/-- The cursor of one offset becomes that of a later one. -/
theorem advance_eq {offset : Nat} (hoffset : offset ≤ content.length) {fuel : Nat} :
    k ≤ offset → content.length < fuel + k →
    advance content offset fuel (lineNumberForOffset content k) (find [newline] content k) =
      some (lineNumberForOffset content offset, find [newline] content offset) := by
  induction fuel generalizing k with
  | zero =>
    intro hk hfuel
    omega
  | succ fuel ih =>
    intro hk hfuel
    have hne : [newline] ≠ [] := List.cons_ne_nil _ _
    cases hfind : find [newline] content k with
    | none =>
      have hnone := find_eq_none hne hfind
      have hcount := count_take_of_none hk fun j hj hkj => absurd (hnone j hj) (by omega)
      rw [advance, find_eq_none_of_forall hne fun j hj => Nat.lt_of_lt_of_le (hnone j hj) hk]
      unfold lineNumberForOffset
      exact congrArg (fun n => some (n + 1, none)) hcount.symm
    | some index =>
      obtain ⟨hle, hmem, hleast⟩ := find_eq_some hne hfind
      rw [advance]
      split
      · next hlt =>
        have hcount := count_take_of_none hle hleast
        have hnext : lineNumberForOffset content k + 1 =
            lineNumberForOffset content (index + 1) := by
          unfold lineNumberForOffset
          exact congrArg (· + 1) ((congrArg (· + 1) hcount.symm).trans
            (count_take_succ (mem_positions_newline.mp hmem)).symm)
        rw [hnext]
        exact ih hlt (by omega)
      · next hge =>
        have hbefore : ∀ j ∈ positions [newline] content, k ≤ j → offset ≤ j :=
          fun j hj hkj => Nat.le_trans (Nat.le_of_not_lt hge) (hleast j hj hkj)
        have hcount := count_take_of_none hk hbefore
        rw [find_eq_some_of_least hne (Nat.le_of_not_lt hge) hmem fun j hj hoj =>
          hleast j hj (Nat.le_trans hk hoj)]
        unfold lineNumberForOffset
        exact congrArg (fun n => some (n + 1, some index)) hcount.symm

theorem lineNumbersFrom_eq {fuel : Nat} (hfuel : content.length < fuel) {offsets : List Nat} :
    ∀ {k : Nat} (lines : List Nat), offsets.Pairwise (· ≤ ·) →
      (∀ offset ∈ offsets, k ≤ offset ∧ offset ≤ content.length) →
      lineNumbersFrom fuel content (lineNumberForOffset content k) (find [newline] content k)
        lines offsets = some (lines ++ offsets.map (lineNumberForOffset content)) := by
  induction offsets with
  | nil =>
    intro k lines _ _
    rw [List.map_nil, List.append_nil]
    rfl
  | cons offset offsets ih =>
    intro k lines hsorted hbounds
    obtain ⟨hfirst, hrest⟩ := List.pairwise_cons.mp hsorted
    obtain ⟨hk, hlen⟩ := hbounds offset List.mem_cons_self
    rw [lineNumbersFrom, advance_eq hlen hk (by omega)]
    simp only
    rw [ih _ hrest fun later hlater =>
      ⟨hfirst later hlater, (hbounds later (List.mem_cons_of_mem _ hlater)).2⟩]
    rw [List.map_cons, List.append_assoc, List.singleton_append]

/-! ## Searching again and again -/

theorem matchOffsetsFrom_eq (hold : oldStr ≠ []) {fuel start : Nat} {offsets : List Nat} :
    start ≤ content.length → content.length < fuel + start →
    matchOffsetsFrom content oldStr fuel start offsets =
      some (offsets ++ offsetsFrom oldStr 0 start (content.drop start)) := by
  have hpos := List.length_pos_iff.mpr hold
  induction fuel generalizing start offsets with
  | zero =>
    intro hstart hfuel
    omega
  | succ fuel ih =>
    intro hstart hfuel
    rw [matchOffsetsFrom, offsetsFrom_drop hold hstart]
    cases hfind : find oldStr content start with
    | none => exact congrArg some (List.append_nil offsets).symm
    | some index =>
      obtain ⟨hle, hmem, -⟩ := find_eq_some hold hfind
      simp only
      rw [ih (lt_length_of_mem_positions hold hmem) (by omega), List.append_assoc,
        List.singleton_append]

/-- **The two loops agree with what they stand for**: the line numbers are the plain counts,
and the offsets are the leftmost occurrences that do not overlap, in increasing order. -/
theorem lineNumbers_and_matchOffsets :
    (∀ (content : Str) (offsets : List Nat), offsets.Pairwise (· ≤ ·) →
      (∀ offset ∈ offsets, offset ≤ content.length) → ∀ fuel, content.length < fuel →
        lineNumbersForOffsets fuel content offsets =
          some (offsets.map (lineNumberForOffset content))) ∧
    ∀ content oldStr : Str, oldStr ≠ [] → ∃ offsets,
      (∀ fuel, content.length < fuel →
        matchOffsetsFrom content oldStr fuel 0 [] = some offsets) ∧
      offsets.Pairwise (· < ·) ∧
      (∀ i, i ∈ offsets ↔ oldStr <+: content.drop i ∧
        ∀ j ∈ offsets, j < i → j + oldStr.length ≤ i) ∧
      offsets.length = count oldStr content := by
  constructor
  · intro content offsets hsorted hbounds fuel hfuel
    have hloop := lineNumbersFrom_eq hfuel (k := 0) [] hsorted
      fun offset hoffset => ⟨Nat.zero_le _, hbounds offset hoffset⟩
    exact hloop
  · intro content oldStr hold
    refine ⟨matchOffsets oldStr content, fun fuel hfuel => ?_, matchOffsets_pairwise _ _, ?_,
      length_matchOffsets _ _⟩
    · rw [matchOffsetsFrom_eq hold (Nat.zero_le _) hfuel, List.nil_append, List.drop_zero]
      rfl
    · intro i
      rw [mem_matchOffsets hold, mem_positions hold]

theorem lineNumbers_and_matchOffsets_overlap :
    lineNumbersForOffsets 8 (decode "ab\n\nab\n".toList) [0, 2, 3, 3, 7] =
        some [1, 1, 2, 2, 4] ∧
      ∃ offsets, matchOffsetsFrom (decode "aaaaa".toList) (decode "aa".toList) 6 0 [] =
        some offsets ∧ offsets.length = count (decode "aa".toList) (decode "aaaaa".toList) := by
  constructor
  · exact lineNumbers_and_matchOffsets.1 _ _ (by decide) (by decide) 8 (by decide)
  · obtain ⟨offsets, hloop, -, -, hcount⟩ :=
      lineNumbers_and_matchOffsets.2 (decode "aaaaa".toList) (decode "aa".toList) (by decide)
    exact ⟨offsets, hloop 6 (by decide), hcount⟩

end NeuralHub.FileEdit
