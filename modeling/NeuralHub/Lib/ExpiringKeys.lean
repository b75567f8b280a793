/-
NeuralHub.Lib.ExpiringKeys — keys that are set for a while.

A key that was set is there until it is deleted or its time has come.
`setNx` sets a key that is not there (`SET key value NX EX ttl`), `del`
takes it away, whoever has set it. The clock is an argument of every
operation; an entry whose time has come stays in the table until its key
is set again, and nothing reads it.

All that matters of a key is when it expires: `expiry` is read back after
each operation, and `alive_iff` says what a read finds.
-/
import NeuralHub.Lib.Table

namespace NeuralHub.Lib

universe u v

structure ExpiringEntry (κ : Type u) (ν : Type v) where
  key : κ
  value : ν
  expiresAt : Int

/-- Keys with a value and the time at which they expire. -/
abbrev ExpiringKeys (κ : Type u) (ν : Type v) := Table (ExpiringEntry.key (κ := κ) (ν := ν))

namespace ExpiringKeys

variable {κ : Type u} {ν : Type v} [DecidableEq κ]

/-- When the key expires, or has expired. -/
def expiry (keys : ExpiringKeys κ ν) (k : κ) : Option Int := (keys.find k).map (·.expiresAt)

/-- `EXISTS`. -/
def alive (keys : ExpiringKeys κ ν) (now : Int) (k : κ) : Bool :=
  (keys.expiry k).any fun time => decide (now < time)

/-- `SET NX EX`; `none` when the key is there. -/
def setNx (keys : ExpiringKeys κ ν) (now ttl : Int) (k : κ) (value : ν) :
    Option (ExpiringKeys κ ν) :=
  if keys.alive now k then none else some (keys.put ⟨k, value, now + ttl⟩)

/-- `DEL`. -/
def del (keys : ExpiringKeys κ ν) (k : κ) : ExpiringKeys κ ν := keys.erase k

variable {keys keys' : ExpiringKeys κ ν} {now ttl : Int} {k : κ} {value : ν}

theorem alive_iff : keys.alive now k = true ↔ ∃ time, keys.expiry k = some time ∧ now < time := by
  unfold alive
  cases keys.expiry k with
  | none => simp
  | some time => simp

theorem alive_of_expiry {time : Int} (h : keys.expiry k = some time) (hnow : now < time) :
    keys.alive now k = true := alive_iff.mpr ⟨time, h, hnow⟩

theorem setNx_eq_some_iff : keys.setNx now ttl k value = some keys' ↔
    keys.alive now k = false ∧ keys.put ⟨k, value, now + ttl⟩ = keys' := by
  unfold setNx
  split
  · rename_i halive
    simp [halive]
  · rename_i hfree
    simp [Bool.eq_false_iff.mpr hfree]

theorem expiry_setNx (h : keys.setNx now ttl k value = some keys') (k' : κ) :
    keys'.expiry k' = if k' = k then some (now + ttl) else keys.expiry k' := by
  obtain ⟨-, rfl⟩ := setNx_eq_some_iff.mp h
  unfold expiry
  rw [Table.find_put]
  split
  · rfl
  · rfl

theorem expiry_del_of_ne {k' : κ} (h : k' ≠ k) : (keys.del k).expiry k' = keys.expiry k' := by
  unfold expiry del
  rw [Table.find_erase, if_neg h]

/-- A key never comes to expire earlier by being set again. -/
theorem expiry_setNx_le (h : keys.setNx now ttl k value = some keys') (httl : 0 ≤ ttl) {k' : κ}
    {time : Int} (htime : keys.expiry k' = some time) :
    ∃ time', keys'.expiry k' = some time' ∧ time ≤ time' := by
  rw [expiry_setNx h]
  split
  · rename_i hk
    subst hk
    have hfree := (setNx_eq_some_iff.mp h).1
    have hpast : time ≤ now := by
      by_contra hlt
      rw [alive_of_expiry htime (by omega)] at hfree
      cases hfree
    exact ⟨_, rfl, by omega⟩
  · exact ⟨time, htime, Int.le_refl time⟩

end ExpiringKeys

end NeuralHub.Lib
