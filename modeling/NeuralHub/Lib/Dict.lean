/-
NeuralHub.Lib.Dict — dictionaries with text keys.

A `Dict` is a table of items keyed by their first component, so a key
occurs once and a write keeps the position of the item it replaces.
`get` is what a reader of a dictionary sees; `get_set`, `get_remove` and
`get_update` say what each write does to it. Two dictionaries that agree
on all keys but a few are compared by `Agree`, which is decidable because
only the keys that occur in one of them have to be looked at.
-/
import NeuralHub.Lib.Table

namespace NeuralHub.Lib

universe u

/-- A `dict` with string keys: its items in the order of insertion. -/
abbrev Dict (V : Type u) := Table (Prod.fst : String × V → String)

namespace Dict

variable {V : Type u}

def nil : Dict V := Table.empty

def get (d : Dict V) (key : String) : Option V := (d.find key).map Prod.snd

/-- `d[key] = value`. -/
def set (d : Dict V) (key : String) (value : V) : Dict V := d.put (key, value)

/-- `d.pop(key, None)`. -/
def remove (d : Dict V) (key : String) : Dict V := d.erase key

/-- `d.update(other)`. -/
def update (d other : Dict V) : Dict V := d.putAll other.entries

/-! ## What a reader sees -/

theorem get_eq_some_iff {d : Dict V} {key : String} {value : V} :
    d.get key = some value ↔ (key, value) ∈ d.entries := by
  unfold get
  rw [Option.map_eq_some_iff]
  constructor
  · rintro ⟨item, hitem, rfl⟩
    obtain ⟨hmem, hkey⟩ := Table.find_eq_some_iff.mp hitem
    exact hkey ▸ hmem
  · exact fun hmem => ⟨(key, value), Table.find_eq_some_iff.mpr ⟨hmem, rfl⟩, rfl⟩

theorem get_set (d : Dict V) (key : String) (value : V) (k : String) :
    (d.set key value).get k = if k = key then some value else d.get k := by
  unfold get set
  rw [Table.find_put]
  by_cases h : k = key
  · rw [if_pos h, if_pos h, Option.map_some]
  · rw [if_neg h, if_neg h]

@[simp] theorem get_set_self (d : Dict V) (key : String) (value : V) :
    (d.set key value).get key = some value := by
  rw [get_set, if_pos rfl]

theorem get_set_of_ne (d : Dict V) {key k : String} (value : V) (h : k ≠ key) :
    (d.set key value).get k = d.get k := by
  rw [get_set, if_neg h]

theorem get_remove (d : Dict V) (key k : String) :
    (d.remove key).get k = if k = key then none else d.get k := by
  unfold get remove
  rw [Table.find_erase]
  by_cases h : k = key
  · rw [if_pos h, if_pos h, Option.map_none]
  · rw [if_neg h, if_neg h]

@[simp] theorem get_remove_self (d : Dict V) (key : String) : (d.remove key).get key = none := by
  rw [get_remove, if_pos rfl]

theorem get_remove_of_ne (d : Dict V) {key k : String} (h : k ≠ key) :
    (d.remove key).get k = d.get k := by
  rw [get_remove, if_neg h]

/-- A key that is not there can be popped without effect. -/
theorem remove_eq_self {d : Dict V} {key : String} (h : d.get key = none) : d.remove key = d := by
  have hnone : d.find key = none := Option.map_eq_none_iff.mp h
  have hkeep : d.entries.filter (fun x => decide (x.1 ≠ key)) = d.entries := by
    refine List.filter_eq_self.mpr fun x hx => decide_eq_true fun hkey => ?_
    exact Table.find_eq_none_iff.mp hnone (List.mem_map.mpr ⟨x, hx, hkey⟩)
  unfold remove Table.erase Table.keep
  cases d
  simpa using hkeep

/-- Writing the value that is there changes nothing. -/
theorem set_eq_self {d : Dict V} {key : String} {value : V} (h : d.get key = some value) :
    d.set key value = d := by
  obtain ⟨item, hfind, hvalue⟩ := Option.map_eq_some_iff.mp h
  have hkey := Table.key_of_find hfind
  have hmem := Table.mem_of_find hfind
  have hitem : item = (key, value) := Prod.ext hkey hvalue
  have hkeys : key ∈ d.entries.map Prod.fst := hkey ▸ List.mem_map_of_mem hmem
  have hsame : Table.replace Prod.fst (key, value) d.entries = d.entries := by
    refine (List.map_congr_left fun y hy => ?_).trans (List.map_id _)
    by_cases hy' : y.1 = key
    · rw [if_pos hy', ← hitem]
      exact (List.inj_on_of_nodup_map d.nodup hy hmem (hy'.trans hkey.symm)).symm
    · rw [if_neg hy']
      rfl
  unfold set Table.put
  rw [dif_pos hkeys]
  cases d
  simpa using hsame

/-! ## Agreement up to some keys -/

/-- The two dictionaries have the same value under every key outside of `except`. -/
def Agree (except : List String) (d e : Dict V) : Prop :=
  ∀ k, k ∉ except → d.get k = e.get k

theorem Agree.refl (except : List String) (d : Dict V) : Agree except d d := fun _ _ => rfl

theorem Agree.symm {except : List String} {d e : Dict V} (h : Agree except d e) :
    Agree except e d := fun k hk => (h k hk).symm

theorem Agree.trans {except : List String} {d e f : Dict V} (h : Agree except d e)
    (h' : Agree except e f) : Agree except d f := fun k hk => (h k hk).trans (h' k hk)

theorem get_eq_none {d : Dict V} {k : String} (h : k ∉ d.entries.map Prod.fst) :
    d.get k = none := by
  unfold get
  rw [Table.find_eq_none_iff.mpr h, Option.map_none]

theorem agree_iff {except : List String} {d e : Dict V} :
    Agree except d e ↔ ∀ k ∈ d.entries.map Prod.fst ++ e.entries.map Prod.fst,
      k ∉ except → d.get k = e.get k := by
  constructor
  · exact fun h k _ => h k
  · intro h k hk
    by_cases hmem : k ∈ d.entries.map Prod.fst ++ e.entries.map Prod.fst
    · exact h k hmem hk
    · rw [List.mem_append, not_or] at hmem
      rw [get_eq_none hmem.1, get_eq_none hmem.2]

instance [DecidableEq V] (except : List String) (d e : Dict V) : Decidable (Agree except d e) :=
  decidable_of_iff _ agree_iff.symm

/-- Writing one of the keys left out changes nothing. -/
theorem agree_set {except : List String} (d : Dict V) {key : String} (value : V)
    (h : key ∈ except) : Agree except (d.set key value) d := by
  intro k hk
  refine get_set_of_ne d value ?_
  rintro rfl
  exact hk h

end Dict

end NeuralHub.Lib
