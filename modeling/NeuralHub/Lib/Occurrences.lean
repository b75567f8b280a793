/-
NeuralHub.Lib.Occurrences — where a list occurs in another one.

`matchOffsets` finds occurrences from left to right and goes on behind
each one, as repeated `str.find` does; `positions` are all places where an
occurrence begins. The first is a sublist of the second
(`matchOffsets_sublist`) with the same head (`head?_matchOffsets`), so a
list that occurs in one place is found once. The converse fails where
occurrences overlap.

`find` is one search from a given place. `offsetsFrom_drop` says how the
scan goes on behind what it finds, `matchOffsets_pairwise` and
`mem_matchOffsets` what the scan selects: the places of which no earlier
one that is selected reaches into the occurrence.
-/
import Mathlib.Data.List.Basic

namespace NeuralHub.Lib

universe u

variable {α : Type u} [DecidableEq α]

/-- Offsets of occurrences; the next `skip` places belong to the last one. -/
def offsetsFrom (old : List α) : (skip index : Nat) → List α → List Nat
  | _, _, [] => []
  | skip + 1, index, _ :: rest => offsetsFrom old skip (index + 1) rest
  | 0, index, a :: rest =>
    if old.isPrefixOf (a :: rest) then
      index :: offsetsFrom old (old.length - 1) (index + 1) rest
    else offsetsFrom old 0 (index + 1) rest

/-- The occurrences that do not overlap the ones before them. -/
def matchOffsets (old s : List α) : List Nat := offsetsFrom old 0 0 s

def positionsFrom (old : List α) : (index : Nat) → List α → List Nat
  | _, [] => []
  | index, a :: rest =>
    if old.isPrefixOf (a :: rest) then index :: positionsFrom old (index + 1) rest
    else positionsFrom old (index + 1) rest

/-- All places where the list occurs. -/
def positions (old s : List α) : List Nat := positionsFrom old 0 s

/-- `s.replace(old, new, 1)`. -/
def replaceFirst (old new : List α) : List α → List α
  | [] => []
  | a :: rest =>
    if old.isPrefixOf (a :: rest) then new ++ (a :: rest).drop old.length
    else a :: replaceFirst old new rest

/-- The first place at `index` or behind it, the list standing at `index`. -/
def findFrom (old : List α) : (index : Nat) → List α → Option Nat
  | index, [] => if old = [] then some index else none
  | index, a :: rest =>
    if old.isPrefixOf (a :: rest) then some index else findFrom old (index + 1) rest

/-- `s.find(old, start)`; `none` stands for -1. -/
def find (old s : List α) (start : Nat) : Option Nat :=
  if start ≤ s.length then findFrom old start (s.drop start) else none

/-- The number of occurrences; the next `skip` places belong to the last one. -/
def countFrom (old : List α) : (skip : Nat) → List α → Nat
  | _, [] => 0
  | skip + 1, _ :: rest => countFrom old skip rest
  | 0, a :: rest =>
    if old.isPrefixOf (a :: rest) then countFrom old (old.length - 1) rest + 1
    else countFrom old 0 rest

/-- `s.count(old)` of a list that is not empty. -/
def count (old s : List α) : Nat := countFrom old 0 s

variable {old new s : List α} {i : Nat}

theorem offsetsFrom_sublist (skip index : Nat) (s : List α) :
    (offsetsFrom old skip index s).Sublist (positionsFrom old index s) := by
  induction s generalizing skip index with
  | nil => exact .slnil
  | cons a s ih =>
    cases skip with
    | zero =>
      rw [offsetsFrom, positionsFrom]
      split
      · exact (ih _ _).cons_cons index
      · exact ih _ _
    | succ skip =>
      rw [offsetsFrom, positionsFrom]
      split
      · exact (ih _ _).cons index
      · exact ih _ _

theorem matchOffsets_sublist (old s : List α) : (matchOffsets old s).Sublist (positions old s) :=
  offsetsFrom_sublist 0 0 s

theorem head?_offsetsFrom (index : Nat) (s : List α) :
    (offsetsFrom old 0 index s).head? = (positionsFrom old index s).head? := by
  induction s generalizing index with
  | nil => rfl
  | cons a s ih =>
    rw [offsetsFrom, positionsFrom]
    split
    · rfl
    · exact ih _

theorem head?_matchOffsets (old s : List α) :
    (matchOffsets old s).head? = (positions old s).head? := head?_offsetsFrom 0 s

/-- What occurs in one place is found once. -/
theorem matchOffsets_of_positions (h : positions old s = [i]) : matchOffsets old s = [i] := by
  have hsub := matchOffsets_sublist old s
  have hhead := head?_matchOffsets old s
  rw [h] at hsub hhead
  rcases List.sublist_singleton.mp hsub with hnil | hone
  · rw [hnil] at hhead
    cases hhead
  · exact hone

theorem mem_positionsFrom (hold : old ≠ []) {index : Nat} :
    i ∈ positionsFrom old index s ↔ index ≤ i ∧ old <+: s.drop (i - index) := by
  induction s generalizing index with
  | nil =>
    simp [positionsFrom, hold]
  | cons a s ih =>
    have hnext : i ∈ positionsFrom old (index + 1) s ↔
        index + 1 ≤ i ∧ old <+: (a :: s).drop (i - index) := by
      rw [ih]
      refine and_congr_right fun hle => ?_
      rw [show i - index = i - (index + 1) + 1 by omega, List.drop_succ_cons]
    have hat : i = index → (old <+: (a :: s).drop (i - index) ↔ old <+: a :: s) := by
      rintro rfl
      rw [Nat.sub_self, List.drop_zero]
    rw [positionsFrom]
    split
    · rename_i hprefix
      rw [List.isPrefixOf_iff_prefix] at hprefix
      rw [List.mem_cons, hnext]
      constructor
      · rintro (heq | ⟨hle, hp⟩)
        · exact ⟨by omega, (hat heq).mpr hprefix⟩
        · exact ⟨by omega, hp⟩
      · rintro ⟨hle, hp⟩
        by_cases heq : i = index
        · exact Or.inl heq
        · exact Or.inr ⟨by omega, hp⟩
    · rename_i hprefix
      rw [List.isPrefixOf_iff_prefix] at hprefix
      rw [hnext]
      constructor
      · exact fun ⟨hle, hp⟩ => ⟨by omega, hp⟩
      · rintro ⟨hle, hp⟩
        refine ⟨?_, hp⟩
        by_contra hlt
        have heq : i = index := by omega
        exact hprefix ((hat heq).mp hp)

theorem mem_positions (hold : old ≠ []) : i ∈ positions old s ↔ old <+: s.drop i := by
  rw [positions, mem_positionsFrom hold]
  simp

theorem positionsFrom_pairwise (old : List α) (index : Nat) (s : List α) :
    (positionsFrom old index s).Pairwise (· < ·) ∧ ∀ i ∈ positionsFrom old index s, index ≤ i := by
  induction s generalizing index with
  | nil => exact ⟨.nil, fun i hi => absurd hi List.not_mem_nil⟩
  | cons a s ih =>
    obtain ⟨hpair, hbound⟩ := ih (index + 1)
    rw [positionsFrom]
    split
    · refine ⟨List.pairwise_cons.mpr ⟨fun i hi => hbound i hi, hpair⟩, fun i hi => ?_⟩
      rcases List.mem_cons.mp hi with rfl | hi
      · exact Nat.le_refl _
      · have := hbound i hi
        omega
    · refine ⟨hpair, fun i hi => ?_⟩
      have := hbound i hi
      omega

/-- One place of occurrence. -/
theorem existsUnique_iff (hold : old ≠ []) :
    (∃! i, old <+: s.drop i) ↔ ∃ i, positions old s = [i] := by
  constructor
  · rintro ⟨i, hi, hunique⟩
    have hall : ∀ j ∈ positions old s, j = i := fun j hj => hunique j ((mem_positions hold).mp hj)
    have hmem := (mem_positions hold).mpr hi
    have hpair : (positions old s).Pairwise (· < ·) := (positionsFrom_pairwise old 0 s).1
    cases hpositions : positions old s with
    | nil =>
      rw [hpositions] at hmem
      cases hmem
    | cons j rest =>
      rw [hpositions] at hall hpair
      cases rest with
      | nil => exact ⟨j, rfl⟩
      | cons k rest =>
        have hlt : j < k := (List.pairwise_cons.mp hpair).1 k List.mem_cons_self
        have hj := hall j (by simp)
        have hk := hall k (by simp)
        omega
  · rintro ⟨i, hi⟩
    refine ⟨i, (mem_positions hold).mp (by simp [hi]), fun j hj => ?_⟩
    have hmem := (mem_positions hold).mpr hj
    rw [hi] at hmem
    exact List.mem_singleton.mp hmem

/-- The first occurrence is the one that is replaced. -/
theorem replaceFirst_eq (h : (matchOffsets old s).head? = some i) :
    s = s.take i ++ old ++ s.drop (i + old.length) ∧
      replaceFirst old new s = s.take i ++ new ++ s.drop (i + old.length) := by
  have hgo : ∀ (s : List α) (index : Nat), (offsetsFrom old 0 index s).head? = some i →
      ∃ k, i = index + k ∧ s = s.take k ++ old ++ s.drop (k + old.length) ∧
        replaceFirst old new s = s.take k ++ new ++ s.drop (k + old.length) := by
    intro s
    induction s with
    | nil =>
      intro index h
      cases h
    | cons a s ih =>
      intro index h
      rw [offsetsFrom] at h
      rw [replaceFirst]
      split at h
      · rename_i hprefix
        obtain ⟨rest, hrest⟩ := List.isPrefixOf_iff_prefix.mp hprefix
        refine ⟨0, (Option.some.inj h).symm, ?_, ?_⟩
        · rw [← hrest, Nat.zero_add, List.drop_left, List.take_zero, List.nil_append]
        · rw [if_pos hprefix, Nat.zero_add, List.take_zero, List.nil_append]
      · rename_i hprefix
        obtain ⟨k, hk, hs, hreplace⟩ := ih _ h
        refine ⟨k + 1, by omega, ?_, ?_⟩
        · rw [List.take_succ_cons, show k + 1 + old.length = k + old.length + 1 by omega,
            List.drop_succ_cons, List.cons_append, List.cons_append, ← hs]
        · rw [if_neg hprefix, hreplace, List.take_succ_cons,
            show k + 1 + old.length = k + old.length + 1 by omega, List.drop_succ_cons]
          rfl
  obtain ⟨k, hk, hs, hreplace⟩ := hgo s 0 h
  rw [Nat.zero_add] at hk
  subst hk
  exact ⟨hs, hreplace⟩

/-! ## Searching from a place -/

variable {start : Nat}

theorem findFrom_eq_some (hold : old ≠ []) {index : Nat} (h : findFrom old index s = some i) :
    i ∈ positionsFrom old index s ∧ ∀ j ∈ positionsFrom old index s, i ≤ j := by
  induction s generalizing index with
  | nil =>
    rw [findFrom, if_neg hold] at h
    cases h
  | cons a s ih =>
    rw [findFrom] at h
    rw [positionsFrom]
    split at h
    · next hprefix =>
      cases h
      rw [if_pos hprefix]
      refine ⟨List.mem_cons_self, fun j hj => ?_⟩
      rcases List.mem_cons.mp hj with rfl | hj
      · exact Nat.le_refl _
      · have := (positionsFrom_pairwise old (i + 1) s).2 j hj
        omega
    · next hprefix =>
      rw [if_neg hprefix]
      exact ih h

theorem findFrom_eq_none (hold : old ≠ []) {index : Nat} :
    findFrom old index s = none ↔ positionsFrom old index s = [] := by
  induction s generalizing index with
  | nil => rw [findFrom, if_neg hold, positionsFrom]; simp
  | cons a s ih =>
    rw [findFrom, positionsFrom]
    split
    · simp
    · exact ih

theorem mem_positionsFrom_drop (hold : old ≠ []) :
    i ∈ positionsFrom old start (s.drop start) ↔ start ≤ i ∧ i ∈ positions old s := by
  rw [mem_positionsFrom hold, mem_positions hold, List.drop_drop]
  refine and_congr_right fun hle => ?_
  rw [Nat.add_sub_cancel' hle]

/-- `find` gives the least place from `start` on. -/
theorem find_eq_some (hold : old ≠ []) (h : find old s start = some i) :
    start ≤ i ∧ i ∈ positions old s ∧ ∀ j ∈ positions old s, start ≤ j → i ≤ j := by
  unfold find at h
  split at h
  · obtain ⟨hmem, hleast⟩ := findFrom_eq_some hold h
    rw [mem_positionsFrom_drop hold] at hmem
    refine ⟨hmem.1, hmem.2, fun j hj hle => ?_⟩
    exact hleast j ((mem_positionsFrom_drop hold).mpr ⟨hle, hj⟩)
  · cases h

theorem lt_length_of_mem_positions (hold : old ≠ []) (h : i ∈ positions old s) :
    i + old.length ≤ s.length := by
  have hlen := ((mem_positions hold).mp h).length_le
  have hpos := List.length_pos_iff.mpr hold
  rw [List.length_drop] at hlen
  omega

theorem find_eq_none (hold : old ≠ []) (h : find old s start = none) :
    ∀ j ∈ positions old s, j < start := by
  intro j hj
  unfold find at h
  split at h
  · by_contra hle
    have hmem := (mem_positionsFrom_drop hold).mpr ⟨Nat.le_of_not_lt hle, hj⟩
    rw [(findFrom_eq_none hold).mp h] at hmem
    cases hmem
  · have := lt_length_of_mem_positions hold hj
    omega

theorem find_eq_some_of_least (hold : old ≠ []) (hle : start ≤ i) (hmem : i ∈ positions old s)
    (hleast : ∀ j ∈ positions old s, start ≤ j → i ≤ j) : find old s start = some i := by
  cases hfind : find old s start with
  | none =>
    have := find_eq_none hold hfind i hmem
    omega
  | some j =>
    obtain ⟨hlej, hmemj, hleastj⟩ := find_eq_some hold hfind
    have hij := hleast j hmemj hlej
    have hji := hleastj i hmem hle
    rw [Nat.le_antisymm hji hij]

theorem find_eq_none_of_forall (hold : old ≠ []) (h : ∀ j ∈ positions old s, j < start) :
    find old s start = none := by
  cases hfind : find old s start with
  | none => rfl
  | some j =>
    obtain ⟨hle, hmem, -⟩ := find_eq_some hold hfind
    have := h j hmem
    omega

/-! ## The scan, one occurrence at a time -/

theorem offsetsFrom_skip (skip index : Nat) (s : List α) :
    offsetsFrom old skip index s = offsetsFrom old 0 (index + skip) (s.drop skip) := by
  induction s generalizing skip index with
  | nil =>
    rw [List.drop_nil]
    cases skip with
    | zero => rfl
    | succ skip => rfl
  | cons a s ih =>
    cases skip with
    | zero => rfl
    | succ skip =>
      rw [offsetsFrom, ih, List.drop_succ_cons, Nat.add_right_comm, Nat.add_assoc]

theorem offsetsFrom_findFrom (hold : old ≠ []) (index : Nat) (s : List α) :
    offsetsFrom old 0 index s =
      match findFrom old index s with
      | none => []
      | some i => i :: offsetsFrom old 0 (i + old.length) (s.drop (i - index + old.length)) := by
  have hpos := List.length_pos_iff.mpr hold
  induction s generalizing index with
  | nil => rw [findFrom, if_neg hold, offsetsFrom]
  | cons a s ih =>
    rw [offsetsFrom, findFrom]
    split
    · simp only
      rw [offsetsFrom_skip, Nat.sub_self, Nat.zero_add, Nat.add_assoc, Nat.add_sub_cancel' hpos]
      obtain ⟨n, hn⟩ := Nat.exists_eq_succ_of_ne_zero (Nat.ne_of_gt hpos)
      rw [hn, Nat.succ_sub_one, List.drop_succ_cons]
    · rw [ih]
      cases hfind : findFrom old (index + 1) s with
      | none => rfl
      | some i =>
        have hle := ((mem_positionsFrom hold).mp (findFrom_eq_some hold hfind).1).1
        simp only
        rw [show i - index + old.length = i - (index + 1) + old.length + 1 by omega,
          List.drop_succ_cons]

/-- The scan from a place finds the first occurrence and goes on behind it. -/
theorem offsetsFrom_drop (hold : old ≠ []) (hstart : start ≤ s.length) :
    offsetsFrom old 0 start (s.drop start) =
      match find old s start with
      | none => []
      | some i => i :: offsetsFrom old 0 (i + old.length) (s.drop (i + old.length)) := by
  rw [offsetsFrom_findFrom hold, find, if_pos hstart]
  cases hfind : findFrom old start (s.drop start) with
  | none => rfl
  | some i =>
    have hle := ((mem_positionsFrom hold).mp (findFrom_eq_some hold hfind).1).1
    simp only
    rw [List.drop_drop, show start + (i - start + old.length) = i + old.length by omega]

theorem length_offsetsFrom (skip index : Nat) (s : List α) :
    (offsetsFrom old skip index s).length = countFrom old skip s := by
  induction s generalizing skip index with
  | nil => cases skip <;> rfl
  | cons a s ih =>
    cases skip with
    | zero =>
      rw [offsetsFrom, countFrom]
      split
      · rw [List.length_cons, ih]
      · exact ih _ _
    | succ skip => exact ih _ _

theorem length_matchOffsets (old s : List α) : (matchOffsets old s).length = count old s :=
  length_offsetsFrom 0 0 s

theorem matchOffsets_pairwise (old s : List α) : (matchOffsets old s).Pairwise (· < ·) :=
  ((positionsFrom_pairwise old 0 s).1).sublist (matchOffsets_sublist old s)

/-- A place is selected by the scan from `start` if no selected place before it reaches into
the occurrence. -/
theorem mem_offsetsFrom_drop (hold : old ≠ []) (hstart : start ≤ s.length) :
    i ∈ offsetsFrom old 0 start (s.drop start) ↔
      i ∈ positions old s ∧ start ≤ i ∧
        ∀ j ∈ offsetsFrom old 0 start (s.drop start), j < i → j + old.length ≤ i := by
  have hpos := List.length_pos_iff.mpr hold
  generalize hn : s.length - start = n
  induction n using Nat.strongRecOn generalizing start with
  | ind n ih =>
    rw [offsetsFrom_drop hold hstart]
    cases hfind : find old s start with
    | none =>
      have hnone := find_eq_none hold hfind
      simp only [List.not_mem_nil, false_iff, not_and]
      intro hmem hle
      have := hnone i hmem
      omega
    | some k =>
      obtain ⟨hle, hmem, hleast⟩ := find_eq_some hold hfind
      have hend := lt_length_of_mem_positions hold hmem
      have hrest := ih (s.length - (k + old.length)) (by omega) hend rfl
      have hbehind : ∀ j ∈ offsetsFrom old 0 (k + old.length) (s.drop (k + old.length)),
          k + old.length ≤ j := by
        intro j hj
        exact ((mem_positionsFrom hold).mp ((offsetsFrom_sublist _ _ _).subset hj)).1
      simp only [List.mem_cons, forall_eq_or_imp]
      constructor
      · rintro (rfl | hi)
        · refine ⟨hmem, hle, fun hlt => absurd hlt (Nat.lt_irrefl _), fun j hj hlt => ?_⟩
          have := hbehind j hj
          omega
        · obtain ⟨hi, hki, hearlier⟩ := hrest.mp hi
          exact ⟨hi, by omega, fun _ => hki, hearlier⟩
      · rintro ⟨hi, hsi, hk, hearlier⟩
        by_cases heq : i = k
        · exact Or.inl heq
        · have hki := hleast i hi hsi
          exact Or.inr (hrest.mpr ⟨hi, hk (by omega), hearlier⟩)

theorem mem_matchOffsets (hold : old ≠ []) :
    i ∈ matchOffsets old s ↔
      i ∈ positions old s ∧ ∀ j ∈ matchOffsets old s, j < i → j + old.length ≤ i := by
  have h := mem_offsetsFrom_drop (i := i) hold (Nat.zero_le s.length)
  rw [List.drop_zero] at h
  rw [matchOffsets, h]
  simp

end NeuralHub.Lib
