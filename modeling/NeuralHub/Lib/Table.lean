/-
NeuralHub.Lib.Table — finite tables keyed by one of their own columns.

A `Table key` is a list of rows in which no key occurs twice; the `nodup`
field is a proof, so a table with two rows for one key cannot be built.
`find` reads the row of a key and `put` writes a row under its own key,
in place when the key is there and at the end otherwise (an SQL upsert by
primary key). Because the key is read off the row, a row can never sit
under a key that is not its own: `key_of_find` needs no invariant.

`find_put` says all a caller ever needs about a write, `find_erase` and
`find_keep_eq_some_iff` about a removal. The other kind of access is a
scan: counting rows agrees with counting through any duplicate-free list
of the keys, and `find_of_perm` is for a scan in another order.
-/
import Mathlib.Data.List.Nodup
import Mathlib.Data.List.Perm.Basic
import Mathlib.Data.List.Perm.Subperm
import Mathlib.Data.List.Sort
import Mathlib.Data.List.Dedup

namespace NeuralHub.Lib

universe u v

/-- Rows with pairwise distinct keys. -/
structure Table {α : Type u} {κ : Type v} (key : α → κ) where
  entries : List α
  nodup : (entries.map key).Nodup

namespace Table

variable {α : Type u} {κ : Type v} {key : α → κ}

def empty : Table key := ⟨[], List.nodup_nil⟩

variable [DecidableEq κ]

def find (t : Table key) (k : κ) : Option α := t.entries.find? (fun x => key x = k)

/-- Replace every row that has the key of `x`. -/
def replace (key : α → κ) (x : α) (xs : List α) : List α :=
  xs.map (fun y => if key y = key x then x else y)

@[simp] theorem replace_nil (x : α) : replace key x [] = [] := rfl

theorem replace_cons (x y : α) (ys : List α) :
    replace key x (y :: ys) = (if key y = key x then x else y) :: replace key x ys := rfl

theorem map_key_replace (x : α) (xs : List α) :
    (replace key x xs).map key = xs.map key := by
  induction xs with
  | nil => rfl
  | cons y ys ih =>
    by_cases h : key y = key x
    · simp_all [replace_cons]
    · simp_all [replace_cons]

/-- Write a row under its own key. -/
def put (t : Table key) (x : α) : Table key :=
  if h : key x ∈ t.entries.map key then
    ⟨replace key x t.entries, by rw [map_key_replace]; exact t.nodup⟩
  else
    ⟨t.entries ++ [x], by
      rw [List.map_append, List.nodup_append]
      refine ⟨t.nodup, by simp, ?_⟩
      intro a ha b hb hab
      rw [List.map_singleton, List.mem_singleton] at hb
      exact h (hb ▸ hab ▸ ha)⟩

/-- Write several rows, first to last. -/
def putAll (t : Table key) (xs : List α) : Table key := xs.foldl put t

@[simp] theorem putAll_nil (t : Table key) : t.putAll [] = t := rfl

theorem putAll_cons (t : Table key) (x : α) (xs : List α) :
    t.putAll (x :: xs) = (t.put x).putAll xs := rfl

/-! ## Reading what was written -/

@[simp] theorem find_empty (k : κ) : (empty : Table key).find k = none := rfl

theorem key_of_find {t : Table key} {k : κ} {x : α} (h : t.find k = some x) : key x = k := by
  simpa using List.find?_some h

theorem mem_of_find {t : Table key} {k : κ} {x : α} (h : t.find k = some x) :
    x ∈ t.entries := List.mem_of_find?_eq_some h

theorem find_eq_none_iff {t : Table key} {k : κ} :
    t.find k = none ↔ k ∉ t.entries.map key := by
  simp [find, List.find?_eq_none]

theorem find_isSome_iff {t : Table key} {k : κ} :
    (t.find k).isSome ↔ k ∈ t.entries.map key := by
  rw [Option.isSome_iff_ne_none, ne_eq, find_eq_none_iff, not_not]

theorem find?_replace_of_ne {x : α} {k : κ} (hk : k ≠ key x) (xs : List α) :
    (replace key x xs).find? (fun y => key y = k) = xs.find? (fun y => key y = k) := by
  induction xs with
  | nil => rfl
  | cons y ys ih =>
    by_cases hy : key y = key x
    · have hxk : key x ≠ k := fun h => hk h.symm
      simp [replace_cons, ih, hy, hxk]
    · by_cases hyk : key y = k
      · simp [replace_cons, hyk, hk]
      · simp [replace_cons, ih, hy, hyk]

theorem find?_replace_self {x : α} {xs : List α} (h : key x ∈ xs.map key) :
    (replace key x xs).find? (fun y => key y = key x) = some x := by
  induction xs with
  | nil => simp at h
  | cons y ys ih =>
    by_cases hy : key y = key x
    · simp [replace_cons, hy]
    · have hmem : key x ∈ ys.map key := by
        rcases List.mem_cons.mp h with h' | h'
        · exact absurd h'.symm hy
        · exact h'
      simpa [replace_cons, hy] using ih hmem

/-- A write is read back under its own key and changes no other key. -/
theorem find_put (t : Table key) (x : α) (k : κ) :
    (t.put x).find k = if k = key x then some x else t.find k := by
  unfold put
  split
  · rename_i hmem
    split
    · rename_i hk
      subst hk
      exact find?_replace_self hmem
    · rename_i hk
      exact find?_replace_of_ne hk t.entries
  · rename_i hmem
    have hnone : t.find (key x) = none := find_eq_none_iff.mpr hmem
    by_cases hk : k = key x
    · subst hk
      simp only [find] at hnone
      simp [find, List.find?_append, hnone]
    · have hxk : key x ≠ k := fun h => hk h.symm
      simp [find, List.find?_append, hk, hxk]

@[simp] theorem find_put_self (t : Table key) (x : α) : (t.put x).find (key x) = some x := by
  rw [find_put, if_pos rfl]

theorem find_put_of_ne (t : Table key) {x : α} {k : κ} (h : k ≠ key x) :
    (t.put x).find k = t.find k := by
  rw [find_put, if_neg h]

/-- A row under a new key goes to the end. -/
theorem entries_put_of_notMem {t : Table key} {x : α} (h : key x ∉ t.entries.map key) :
    (t.put x).entries = t.entries ++ [x] := by
  rw [put, dif_neg h]

theorem entries_putAll_of_notMem {xs : List α} {t : Table key}
    (h : (t.entries.map key ++ xs.map key).Nodup) :
    (t.putAll xs).entries = t.entries ++ xs := by
  induction xs generalizing t with
  | nil => exact (List.append_nil _).symm
  | cons x xs ih =>
    have hx : key x ∉ t.entries.map key := by
      intro hmem
      exact (List.nodup_append.mp h).2.2 _ hmem _ List.mem_cons_self rfl
    have hput := entries_put_of_notMem hx
    rw [putAll_cons]
    refine (ih ?_).trans (by rw [hput, List.append_assoc, List.singleton_append])
    rwa [hput, List.map_append, List.append_assoc]

/-- Writing rows whose keys do not include `k` leaves `k` as it was. -/
theorem find_putAll_of_notMem (xs : List α) (t : Table key) {k : κ} (h : k ∉ xs.map key) :
    (t.putAll xs).find k = t.find k := by
  induction xs generalizing t with
  | nil => rfl
  | cons x xs ih =>
    rw [List.map_cons, List.mem_cons, not_or] at h
    rw [putAll_cons]
    exact (ih (t.put x) h.2).trans (find_put_of_ne t h.1)

theorem find_putAll_of_mem {xs : List α} (hnd : (xs.map key).Nodup) (t : Table key) {x : α}
    (hx : x ∈ xs) : (t.putAll xs).find (key x) = some x := by
  induction xs generalizing t with
  | nil => cases hx
  | cons y ys ih =>
    rw [List.map_cons, List.nodup_cons] at hnd
    rw [putAll_cons]
    rcases List.mem_cons.mp hx with rfl | hmem
    · exact (find_putAll_of_notMem ys (t.put x) hnd.1).trans (find_put_self t x)
    · exact ih hnd.2 (t.put y) hmem

/-- A bulk write removes no key. -/
theorem isSome_find_putAll (xs : List α) {t : Table key} {k : κ} (h : (t.find k).isSome) :
    ((t.putAll xs).find k).isSome := by
  induction xs generalizing t with
  | nil => exact h
  | cons x xs ih =>
    refine ih ?_
    rw [find_put]
    split
    · rfl
    · exact h

/-- Rows that are copied from one table into another, by their keys. -/
theorem find_putAll_filterMap_find (t u : Table key) (ks : List κ) (k : κ) :
    (u.putAll (ks.filterMap t.find)).find k =
      if k ∈ ks ∧ (t.find k).isSome then t.find k else u.find k := by
  induction ks generalizing u with
  | nil => simp
  | cons l ks ih =>
    cases hl : t.find l with
    | none =>
      rw [List.filterMap_cons_none hl, ih]
      by_cases hk : k = l
      · simp [hk, hl]
      · simp [hk]
    | some x =>
      rw [List.filterMap_cons_some hl, putAll_cons]
      refine (ih (u.put x)).trans ?_
      rw [find_put, key_of_find hl]
      by_cases hk : k = l
      · simp [hk, hl]
      · simp [hk]

/-- A key that is written is there afterwards. -/
theorem isSome_find_putAll_of_mem (xs : List α) (t : Table key) {k : κ} (h : k ∈ xs.map key) :
    ((t.putAll xs).find k).isSome := by
  induction xs generalizing t with
  | nil => cases h
  | cons x xs ih =>
    rw [putAll_cons]
    rcases List.mem_cons.mp h with rfl | h
    · exact isSome_find_putAll xs (t := t.put x) (by rw [find_put_self]; rfl)
    · exact ih (t.put x) h

/-! ## Scanning -/

theorem find_of_mem {t : Table key} {x : α} (h : x ∈ t.entries) : t.find (key x) = some x := by
  obtain ⟨xs, hnd⟩ := t
  simp only [find] at h ⊢
  induction xs with
  | nil => cases h
  | cons y ys ih =>
    rw [List.map_cons, List.nodup_cons] at hnd
    rcases List.mem_cons.mp h with rfl | hmem
    · simp
    · have hne : key y ≠ key x := fun he => hnd.1 (he ▸ List.mem_map_of_mem hmem)
      rw [List.find?_cons_of_neg (by simpa using hne)]
      exact ih hnd.2 hmem

theorem find_eq_some_iff {t : Table key} {k : κ} {x : α} :
    t.find k = some x ↔ x ∈ t.entries ∧ key x = k := by
  constructor
  · exact fun h => ⟨mem_of_find h, key_of_find h⟩
  · rintro ⟨hmem, rfl⟩
    exact find_of_mem hmem

/-- What is found does not depend on the order of the rows. -/
theorem find_of_perm {t u : Table key} (h : t.entries.Perm u.entries) (k : κ) :
    t.find k = u.find k := by
  ext x
  rw [find_eq_some_iff, find_eq_some_iff, h.mem_iff]

/-- Reading a list of keys finds rows in the order of the keys. -/
theorem map_key_filterMap_find (t : Table key) (ks : List κ) :
    (ks.filterMap t.find).map key = ks.filter (fun k => (t.find k).isSome) := by
  induction ks with
  | nil => rfl
  | cons k ks ih =>
    cases h : t.find k with
    | none => simp [h, ih]
    | some x => simp [h, ih, key_of_find h]

/-- A row read through a list of keys is the row of its own key. -/
theorem find_of_mem_filterMap_find {t : Table key} {ks : List κ} {x : α}
    (h : x ∈ ks.filterMap t.find) : t.find (key x) = some x := by
  obtain ⟨k, _, hk⟩ := List.mem_filterMap.mp h
  rw [key_of_find hk]
  exact hk

/-- Scanning the rows and reading the keys of any duplicate-free listing
give the same rows, up to order. -/
theorem filterMap_find_perm (t : Table key) {ks : List κ} (hnd : ks.Nodup)
    (hmem : ∀ k, k ∈ ks ↔ (t.find k).isSome) : (ks.filterMap t.find).Perm t.entries := by
  have hkeys : ks.Perm (t.entries.map key) := by
    rw [List.perm_ext_iff_of_nodup hnd t.nodup]
    intro k
    rw [hmem, find_isSome_iff]
  have hread : (t.entries.map key).filterMap t.find = t.entries := by
    rw [List.filterMap_map]
    calc t.entries.filterMap (t.find ∘ key)
        = t.entries.filterMap some := List.filterMap_congr (fun x hx => find_of_mem hx)
      _ = t.entries := List.filterMap_some
  rw [← hread]
  exact hkeys.filterMap _

/-- Rows in the order of their keys are read by any ordered listing of the keys. -/
theorem insertionSort_entries {ν : Type v} [LinearOrder ν] {key : α → ν} (t : Table key)
    {ks : List ν} (hks : ks.Pairwise (· < ·)) (hmem : ∀ k, k ∈ ks ↔ (t.find k).isSome) :
    t.entries.insertionSort (fun x y => key x ≤ key y) = ks.filterMap t.find := by
  have hnd : ks.Nodup := hks.imp fun h => h.ne
  have hperm : (t.entries.insertionSort (fun x y => key x ≤ key y)).Perm (ks.filterMap t.find) :=
    (List.perm_insertionSort _ _).trans (t.filterMap_find_perm hnd hmem).symm
  have htotal : Std.Total (fun x y : α => key x ≤ key y) := ⟨fun _ _ => le_total _ _⟩
  have htrans : IsTrans α (fun x y => key x ≤ key y) := ⟨fun _ _ _ => le_trans⟩
  refine @List.Perm.eq_of_pairwise α (fun x y => key x ≤ key y) _ _ ?_
    (List.pairwise_insertionSort _ _) ?_ hperm
  · intro x y hx hy hxy hyx
    have hfindx := find_of_mem ((List.mem_insertionSort _).mp hx)
    have hfindy := find_of_mem_filterMap_find hy
    rw [le_antisymm hxy hyx, hfindy] at hfindx
    exact (Option.some.inj hfindx).symm
  · refine List.Pairwise.filterMap t.find (fun k l hkl x hx y hy => ?_) hks
    rw [key_of_find hx, key_of_find hy]
    exact hkl.le

/-! ## Removing rows -/

/-- Keep the rows that satisfy `p`. -/
def keep (t : Table key) (p : α → Bool) : Table key :=
  ⟨t.entries.filter p, t.nodup.sublist (List.filter_sublist.map key)⟩

/-- Remove the row of a key. -/
def erase (t : Table key) (k : κ) : Table key := t.keep fun x => key x ≠ k

theorem find_keep_eq_some_iff {t : Table key} {p : α → Bool} {k : κ} {x : α} :
    (t.keep p).find k = some x ↔ t.find k = some x ∧ p x = true := by
  rw [find_eq_some_iff, find_eq_some_iff, keep, List.mem_filter]
  tauto

theorem find_erase (t : Table key) (k l : κ) :
    (t.erase k).find l = if l = k then none else t.find l := by
  ext x
  rw [erase, find_keep_eq_some_iff, decide_eq_true_iff]
  split
  · rename_i hl
    simp only [reduceCtorEq, iff_false, not_and, not_not]
    exact fun h => (key_of_find h).trans hl
  · rename_i hl
    exact ⟨fun h => h.1, fun h => ⟨h, fun hk => hl ((key_of_find h).symm.trans hk)⟩⟩

theorem map_key_erase (t : Table key) (k : κ) :
    (t.erase k).entries.map key = (t.entries.map key).filter (· ≠ k) := by
  rw [List.filter_map]
  rfl

theorem length_erase_of_mem {t : Table key} {k : κ} (h : k ∈ t.entries.map key) :
    (t.erase k).entries.length + 1 = t.entries.length := by
  have hkeys : (t.erase k).entries.length = ((t.entries.map key).erase k).length := by
    rw [t.nodup.erase_eq_filter, ← List.length_map key, map_key_erase]
    congr 1
    refine List.filter_congr fun l _ => ?_
    by_cases hl : l = k <;> simp [hl]
  have hpos := List.length_pos_of_mem h
  rw [List.length_map] at hpos
  rw [hkeys, List.length_erase_of_mem h, List.length_map]
  omega

/-! ## Changing all rows -/

/-- Change every row, not its key. -/
def mapRows (t : Table key) (f : α → α) (hf : ∀ x, key (f x) = key x) : Table key :=
  ⟨t.entries.map f, by
    rw [List.map_map, show key ∘ f = key from funext hf]
    exact t.nodup⟩

theorem find_mapRows (t : Table key) {f : α → α} (hf : ∀ x, key (f x) = key x) (k : κ) :
    (t.mapRows f hf).find k = (t.find k).map f := by
  rw [find, mapRows, List.find?_map]
  have hcongr : (fun x => decide (key x = k)) ∘ f = fun x => decide (key x = k) := by
    funext x
    rw [Function.comp_apply, hf]
  rw [hcongr]
  rfl

/-! ## Rows that must be new -/

/-- Append a row; `none` where its key is there already. -/
def insertNew (t : Table key) (x : α) : Option (Table key) :=
  if h : key x ∈ t.entries.map key then none
  else some ⟨t.entries ++ [x], by
    rw [List.map_append, List.map_singleton, ← List.concat_eq_append, List.nodup_concat]
    exact ⟨h, t.nodup⟩⟩

/-- Append several rows, first to last, or none of them. -/
def insertAll (t : Table key) : List α → Option (Table key)
  | [] => some t
  | x :: xs => (t.insertNew x).bind fun t => t.insertAll xs

theorem insertNew_eq_some_iff {t u : Table key} {x : α} :
    t.insertNew x = some u ↔ key x ∉ t.entries.map key ∧ u.entries = t.entries ++ [x] := by
  unfold insertNew
  split
  · rename_i h
    simp [h]
  · rename_i h
    constructor
    · rintro hu
      cases hu
      exact ⟨h, rfl⟩
    · rintro ⟨-, hu⟩
      obtain ⟨entries, nodup⟩ := u
      cases hu
      rfl

theorem find_insertNew {t u : Table key} {x : α} (h : t.insertNew x = some u) (k : κ) :
    u.find k = if k = key x then some x else t.find k := by
  obtain ⟨hnew, hentries⟩ := insertNew_eq_some_iff.mp h
  have hmem : ∀ {y}, u.find k = some y ↔ t.find k = some y ∨ (y = x ∧ key y = k) := by
    intro y
    rw [find_eq_some_iff, find_eq_some_iff, hentries, List.mem_append, List.mem_singleton]
    tauto
  ext y
  rw [hmem]
  split
  · rename_i hk
    have hnone : t.find k = none := find_eq_none_iff.mpr (hk ▸ hnew)
    rw [hnone, Option.some_inj]
    constructor
    · rintro (hfind | ⟨rfl, -⟩)
      · cases hfind
      · rfl
    · rintro rfl
      exact Or.inr ⟨rfl, hk.symm⟩
  · rename_i hk
    constructor
    · rintro (hfind | ⟨rfl, hkey⟩)
      · exact hfind
      · exact absurd hkey.symm hk
    · exact Or.inl

theorem insertAll_eq_some_iff {t u : Table key} {xs : List α} :
    t.insertAll xs = some u ↔ (xs.map key).Nodup ∧ (∀ x ∈ xs, key x ∉ t.entries.map key) ∧
      u.entries = t.entries ++ xs := by
  induction xs generalizing t with
  | nil =>
    obtain ⟨entries, nodup⟩ := t
    obtain ⟨entries', nodup'⟩ := u
    simp [insertAll, eq_comm]
  | cons x xs ih =>
    rw [insertAll, Option.bind_eq_some_iff, List.map_cons, List.nodup_cons, List.forall_mem_cons]
    constructor
    · rintro ⟨t', ht', hu⟩
      obtain ⟨hx, hentries⟩ := insertNew_eq_some_iff.mp ht'
      obtain ⟨hnodup, hnew, hu⟩ := ih.mp hu
      rw [hentries] at hnew hu
      refine ⟨⟨fun hmem => ?_, hnodup⟩, ⟨hx, fun y hy hmem => ?_⟩, by simpa using hu⟩
      · obtain ⟨y, hy, hkey⟩ := List.mem_map.mp hmem
        exact hnew y hy (by simp [hkey])
      · refine hnew y hy ?_
        rw [List.map_append]
        exact List.mem_append_left _ hmem
    · rintro ⟨⟨hx', hnodup⟩, ⟨hx, hnew⟩, hu⟩
      obtain ⟨t', ht'⟩ : ∃ t', t.insertNew x = some t' := by
        rw [insertNew, dif_neg hx]
        exact ⟨_, rfl⟩
      have hentries := (insertNew_eq_some_iff.mp ht').2
      refine ⟨t', ht', ih.mpr ⟨hnodup, fun y hy hmem => ?_, by rw [hu, hentries]; simp⟩⟩
      rw [hentries, List.map_append, List.mem_append] at hmem
      rcases hmem with hmem | hmem
      · exact hnew y hy hmem
      · refine hx' (List.mem_map.mpr ⟨y, hy, ?_⟩)
        simpa using hmem

theorem exists_insertAll_iff {t : Table key} {xs : List α} :
    (∃ u, t.insertAll xs = some u) ↔
      (xs.map key).Nodup ∧ ∀ x ∈ xs, key x ∉ t.entries.map key := by
  constructor
  · rintro ⟨u, hu⟩
    obtain ⟨hnodup, hnew, -⟩ := insertAll_eq_some_iff.mp hu
    exact ⟨hnodup, hnew⟩
  · rintro ⟨hnodup, hnew⟩
    have hall : ((t.entries ++ xs).map key).Nodup := by
      rw [List.map_append, List.nodup_append]
      refine ⟨t.nodup, hnodup, fun k hk l hl heq => ?_⟩
      obtain ⟨x, hx, rfl⟩ := List.mem_map.mp hl
      exact hnew x hx (heq ▸ hk)
    exact ⟨⟨t.entries ++ xs, hall⟩, insertAll_eq_some_iff.mpr ⟨hnodup, hnew, rfl⟩⟩

end Table

/-! ## Columns -/

/-- A text column takes everything but U+0000. -/
def textual (s : List Char) : Bool := !s.contains '\x00'

/-- A column for texts of at most `n` characters. -/
def varchar (n : Nat) (s : String) : Bool := textual s.toList && decide (s.toList.length ≤ n)

/-- A column for integers of four bytes. -/
def int32 (n : Int) : Bool := decide (-2147483648 ≤ n ∧ n ≤ 2147483647)

end NeuralHub.Lib
