/-
NeuralHub.Lib.Recency — bounded logs, and keys in the order of their last use.

`recent n keys` are the `n` keys of a sequence that were used last, the
last one first. A list kept in that order follows the sequence by moving
the key to the front and cutting behind the `n`-th place (`recent_concat`).

`List.rtake` is the log that is kept to its last `n` entries by dropping
the first one when it grows too long (`rtake_concat`). `putLast` and
`keepLast` are the two together on a table: its rows are the rows of the
keys used last (`map_key_keepLast_putLast`).
-/
import Mathlib.Data.List.DropRight
import Mathlib.Order.Basic
import NeuralHub.Lib.Table

namespace NeuralHub.Lib

universe u

variable {α : Type u} {k : α} {l : List α} {n : Nat}

/-! ## The last entries -/

theorem length_rtake (n : Nat) (l : List α) : (l.rtake n).length = min n l.length := by
  rw [List.rtake, List.length_drop]
  omega

/-- Append an entry, and drop the first one if there are too many. -/
theorem rtake_concat (hn : 0 < n) (l : List α) (x : α) :
    (l ++ [x]).rtake n =
      if n < (l.rtake n ++ [x]).length then (l.rtake n ++ [x]).tail else l.rtake n ++ [x] := by
  obtain ⟨m, rfl⟩ : ∃ m, n = m + 1 := ⟨n - 1, by omega⟩
  rw [List.rtake_concat_succ, List.length_append, length_rtake, List.length_singleton]
  split
  · next h =>
    have hlen : m + 1 ≤ l.length := by omega
    rw [List.rtake, List.rtake, show l.length - m = l.length - (m + 1) + 1 by omega,
      List.tail_append_of_ne_nil, List.tail_drop]
    exact List.ne_nil_of_length_pos (by rw [List.length_drop]; omega)
  · next h =>
    rw [List.rtake, List.rtake, show l.length - m = 0 by omega,
      show l.length - (m + 1) = 0 by omega]

theorem rtake_rtake_concat (l : List α) (x : α) : (l.rtake n ++ [x]).rtake n = (l ++ [x]).rtake n := by
  cases n with
  | zero => rw [List.rtake_zero, List.rtake_zero]
  | succ m =>
    rw [List.rtake_concat_succ, List.rtake_concat_succ, List.rtake_eq_reverse_take_reverse,
      List.rtake_eq_reverse_take_reverse, List.rtake_eq_reverse_take_reverse,
      List.reverse_reverse, List.take_take, Nat.min_eq_left (Nat.le_succ m)]

/-- In a log that is in order, what bounds the last entries bounds all of them. -/
theorem forall_lt_of_rtake {β : Type u} [Preorder β] {l : List β} {bound : β} (hn : 0 < n)
    (hl : l.Pairwise (· ≤ ·)) (h : ∀ x ∈ l.rtake n, x < bound) : ∀ x ∈ l, x < bound := by
  intro x hx
  obtain ⟨m, rfl⟩ : ∃ m, n = m + 1 := ⟨n - 1, by omega⟩
  rcases List.eq_nil_or_concat l with rfl | ⟨rest, last, rfl⟩
  · cases hx
  · rw [List.concat_eq_append] at hl hx h
    have hlast : last < bound := by
      refine h last ?_
      rw [List.rtake_concat_succ]
      exact List.mem_append_right _ (List.mem_singleton_self last)
    rcases List.mem_append.mp hx with hrest | hself
    · exact lt_of_le_of_lt ((List.pairwise_append.mp hl).2.2 x hrest last
        (List.mem_singleton_self last)) hlast
    · exact List.mem_singleton.mp hself ▸ hlast

section

variable [DecidableEq α]

/-! ## Distinct elements -/

theorem filter_eraseDups (p : α → Bool) :
    ∀ (m : Nat) (l : List α), l.length ≤ m → (l.filter p).eraseDups = l.eraseDups.filter p
  | _, [], _ => rfl
  | m + 1, a :: rest, h => by
      have hrest : (rest.filter fun b => !b == a).length ≤ m :=
        Nat.le_trans (List.length_filter_le _ _) (Nat.le_of_succ_le_succ h)
      rw [List.eraseDups_cons]
      by_cases ha : p a = true
      · rw [List.filter_cons_of_pos ha, List.filter_cons_of_pos ha, List.eraseDups_cons,
          List.filter_comm, filter_eraseDups p m _ hrest]
      · rw [List.filter_cons_of_neg ha, List.filter_cons_of_neg ha,
          ← filter_eraseDups p m _ hrest, List.filter_comm]
        congr 1
        refine (List.filter_eq_self.mpr fun b hb => ?_).symm
        rw [Bool.not_eq_true', beq_eq_false_iff_ne]
        rintro rfl
        exact ha (List.mem_filter.mp hb).2

theorem nodup_eraseDups : ∀ (m : Nat) (l : List α), l.length ≤ m → l.eraseDups.Nodup
  | _, [], _ => List.nodup_nil
  | m + 1, a :: rest, h => by
      have hrest : (rest.filter fun b => !b == a).length ≤ m :=
        Nat.le_trans (List.length_filter_le _ _) (Nat.le_of_succ_le_succ h)
      rw [List.eraseDups_cons]
      refine List.nodup_cons.mpr ⟨fun hmem => ?_, nodup_eraseDups m _ hrest⟩
      have := (List.mem_filter.mp (List.mem_eraseDups.mp hmem)).2
      simp at this

/-- A new element goes to the end, one that is there stays where it is. -/
theorem eraseDups_concat (l : List α) (x : α) :
    (l ++ [x]).eraseDups = if x ∈ l then l.eraseDups else l.eraseDups ++ [x] := by
  rw [List.eraseDups_append]
  by_cases hx : x ∈ l
  · simp [List.removeAll, hx]
  · simp [List.removeAll, hx, List.eraseDups_cons]

/-! ## The keys used last -/

/-- The `n` keys used last, the last one first. -/
def recent (n : Nat) (keys : List α) : List α := keys.reverse.eraseDups.take n

theorem take_filter_ne (hl : l.Nodup) (m : Nat) :
    ((l.take (m + 1)).filter (· ≠ k)).take m = (l.filter (· ≠ k)).take m := by
  induction l generalizing m with
  | nil => rw [List.take_nil]
  | cons a rest ih =>
    obtain ⟨ha, hrest⟩ := List.nodup_cons.mp hl
    rw [List.take_succ_cons]
    by_cases hak : a = k
    · subst hak
      have hself : ∀ {xs : List α}, xs ⊆ rest → xs.filter (fun b => decide (b ≠ a)) = xs := by
        intro xs hxs
        refine List.filter_eq_self.mpr fun b hb => decide_eq_true ?_
        rintro rfl
        exact ha (hxs hb)
      rw [List.filter_cons_of_neg (by simp), List.filter_cons_of_neg (by simp),
        hself (List.take_subset m rest), hself (List.Subset.refl rest), List.take_take,
        Nat.min_self]
    · have hkeep : ∀ xs : List α, (a :: xs).filter (· ≠ k) = a :: xs.filter (· ≠ k) :=
        fun xs => List.filter_cons_of_pos (decide_eq_true hak)
      rw [hkeep, hkeep]
      cases m with
      | zero => rfl
      | succ m => rw [List.take_succ_cons, List.take_succ_cons, ih hrest]

/-- Using a key moves it to the front. -/
theorem recent_concat (hn : 0 < n) (keys : List α) (k : α) :
    recent n (keys ++ [k]) = (k :: (recent n keys).filter (· ≠ k)).take n := by
  obtain ⟨m, rfl⟩ : ∃ m, n = m + 1 := ⟨n - 1, by omega⟩
  have hfilter : (keys.reverse.filter fun b => !b == k).eraseDups =
      keys.reverse.eraseDups.filter (· ≠ k) := by
    rw [filter_eraseDups _ _ _ (Nat.le_refl _)]
    refine List.filter_congr fun b _ => ?_
    rw [Bool.eq_iff_iff]
    simp
  unfold recent
  rw [List.reverse_append, List.reverse_singleton, List.singleton_append, List.eraseDups_cons,
    hfilter, List.take_succ_cons, List.take_succ_cons,
    take_filter_ne (nodup_eraseDups _ _ (Nat.le_refl _))]

theorem mem_recent_concat (hn : 0 < n) (keys : List α) (k : α) : k ∈ recent n (keys ++ [k]) := by
  obtain ⟨m, rfl⟩ : ∃ m, n = m + 1 := ⟨n - 1, by omega⟩
  rw [recent_concat hn, List.take_succ_cons]
  exact List.mem_cons_self

end

/-! ## Tables in the order of use -/

namespace Table

variable {κ : Type u} {key : α → κ} [DecidableEq κ]

/-- Write a row and make it the last one. -/
def putLast (t : Table key) (x : α) : Table key :=
  ⟨(t.erase (key x)).entries ++ [x], by
    rw [List.map_append, List.map_singleton, ← List.concat_eq_append, List.nodup_concat]
    refine ⟨fun hmem => ?_, (t.erase (key x)).nodup⟩
    have hnone : (t.erase (key x)).find (key x) = none := by rw [find_erase, if_pos rfl]
    exact find_eq_none_iff.mp hnone hmem⟩

/-- It is read back as with `put`. -/
theorem find_putLast (t : Table key) (x : α) (k : κ) :
    (t.putLast x).find k = if k = key x then some x else t.find k := by
  have herase := find_erase t (key x) k
  unfold find at herase
  unfold find putLast
  simp only [List.find?_append, herase, List.find?_singleton]
  by_cases hk : k = key x
  · simp [hk]
  · have hne : key x ≠ k := fun h => hk h.symm
    simp [hk, hne]

/-- Keep the last `n` rows. -/
def keepLast (t : Table key) (n : Nat) : Table key :=
  ⟨t.entries.rtake n, t.nodup.sublist ((List.drop_sublist _ _).map key)⟩

theorem map_key_keepLast_putLast (t : Table key) (x : α) (n : Nat) :
    (((t.putLast x).keepLast n).entries.map key).reverse =
      (key x :: (t.entries.map key).reverse.filter (· ≠ key x)).take n := by
  have hkeys := map_key_erase t (key x)
  calc (((t.putLast x).keepLast n).entries.map key).reverse
      = (((t.putLast x).entries.map key).rtake n).reverse := by
        unfold keepLast List.rtake
        rw [List.map_drop, List.length_map]
    _ = ((t.putLast x).entries.map key).reverse.take n := by
        rw [List.rtake_eq_reverse_take_reverse, List.reverse_reverse]
    _ = (key x :: (t.entries.map key).reverse.filter (· ≠ key x)).take n := by
        rw [putLast, List.map_append, List.map_singleton, hkeys, List.reverse_append,
          List.reverse_singleton, List.singleton_append, ← List.filter_reverse]

/-- A row that is there after a write is the one written or was there before. -/
theorem mem_keepLast_putLast {t : Table key} {x y : α}
    (h : y ∈ ((t.putLast x).keepLast n).entries) : y = x ∨ y ∈ t.entries ∧ key y ≠ key x := by
  rcases List.mem_append.mp (List.mem_of_mem_drop h) with hmem | hmem
  · obtain ⟨hold, hne⟩ := List.mem_filter.mp hmem
    exact Or.inr ⟨hold, of_decide_eq_true hne⟩
  · exact Or.inl (List.mem_singleton.mp hmem)

end Table

end NeuralHub.Lib
