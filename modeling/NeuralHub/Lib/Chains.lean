/-
NeuralHub.Lib.Chains — how far a relation can be followed.

`Chain r n a` says that `n` steps of `r` can be made from `a`. Chains sort
the elements by how much has to come before them: work in rounds, where an
element is done when all that it is related to is done, takes in round `n`
the elements with a chain of length `n` and none that is longer. `Ahead` is
the order of that work, with a key to sort each round by.

An element that reaches no cycle of a finite relation has no endless chain
(`ReachesNoCycle.acc`); its round comes.
-/
import Mathlib.Logic.Relation
import Mathlib.Order.RelClasses
import Mathlib.Data.Set.Finite.List
import Mathlib.Data.Fintype.EquivFin

namespace NeuralHub.Lib

universe u

variable {α : Type u} {r s : α → α → Prop} {a b : α}

/-! ## Cycles -/

/-- Nothing that `a` leads to leads back to itself. -/
def ReachesNoCycle (r : α → α → Prop) (a : α) : Prop :=
  ∀ b, Relation.ReflTransGen r a b → ¬Relation.TransGen r b b

theorem ReachesNoCycle.of_rel (h : ReachesNoCycle r a) (hab : r a b) : ReachesNoCycle r b :=
  fun c hbc => h c (Relation.ReflTransGen.head hab hbc)

theorem reachesNoCycle_of_measure (f : α → Nat) (h : ∀ a b, r a b → f b < f a) (a : α) :
    ReachesNoCycle r a := by
  have hlt : ∀ b c, Relation.TransGen r b c → f c < f b := by
    intro b c hbc
    induction hbc with
    | single hrel => exact h _ _ hrel
    | tail _ hrel ih => exact Nat.lt_trans (h _ _ hrel) ih
  exact fun b _ hbb => Nat.lt_irrefl _ (hlt b b hbb)

/-- An element of a finite relation from which no cycle is reached. -/
theorem ReachesNoCycle.acc {xs : List α} (hxs : ∀ a b, r a b → b ∈ xs) (h : ReachesNoCycle r a) :
    Acc (fun y x => r x y) a := by
  let Reached := {b // Relation.ReflTransGen r a b}
  have hfinite : Finite Reached := by
    refine Set.Finite.subset (List.finite_toSet (a :: xs)) fun b hb => ?_
    rcases Relation.ReflTransGen.cases_tail hb with rfl | ⟨c, -, hcb⟩
    · exact List.mem_cons_self
    · exact List.mem_cons_of_mem a (hxs c b hcb)
  let below : Reached → Reached → Prop := fun y x => Relation.TransGen r x.1 y.1
  have : IsTrans Reached below := ⟨fun x y z hxy hyz => Relation.TransGen.trans hyz hxy⟩
  have : Std.Irrefl below := ⟨fun x hxx => h x.1 x.2 hxx⟩
  have hwf : WellFounded below := Finite.wellFounded_of_trans_of_irrefl below
  have hacc : ∀ x : Reached, Acc (fun y x => r x y) x.1 := by
    intro x
    induction x using hwf.induction with
    | _ x ih =>
      refine ⟨_, fun y hxy => ?_⟩
      exact ih ⟨y, x.2.tail hxy⟩ (Relation.TransGen.single hxy)
  exact hacc ⟨a, Relation.ReflTransGen.refl⟩

/-! ## Chains -/

/-- `n` steps can be made from `a`. -/
def Chain (r : α → α → Prop) : Nat → α → Prop
  | 0, _ => True
  | n + 1, a => ∃ b, r a b ∧ Chain r n b

theorem chain_of_succ {n : Nat} (h : Chain r (n + 1) a) : Chain r n a := by
  induction n generalizing a with
  | zero => trivial
  | succ n ih =>
    obtain ⟨b, hab, hb⟩ := h
    exact ⟨b, hab, ih hb⟩

theorem chain_antitone {m n : Nat} (hmn : m ≤ n) (h : Chain r n a) : Chain r m a := by
  induction hmn with
  | refl => exact h
  | step _ ih => exact ih (chain_of_succ h)

/-! ## Rounds -/

variable {κ : Type*} [Preorder κ] {key : α → κ}

/-- `a` is in an earlier round than `b`, or in the same one with a smaller key. -/
def Ahead (r : α → α → Prop) (key : α → κ) (a b : α) : Prop :=
  (∃ n, Chain r n b ∧ ¬Chain r n a) ∨ (∀ n, Chain r n a ↔ Chain r n b) ∧ key a < key b

theorem Ahead.asymm (hab : Ahead r key a b) : ¬Ahead r key b a := by
  rintro (⟨m, hma, hmb⟩ | ⟨hsame, hlt⟩)
  · rcases hab with ⟨n, hnb, hna⟩ | ⟨hsame, -⟩
    · rcases Nat.le_total m n with hle | hle
      · exact hmb (chain_antitone hle hnb)
      · exact hna (chain_antitone hle hma)
    · exact hmb ((hsame m).mp hma)
  · rcases hab with ⟨n, hnb, hna⟩ | ⟨-, hlt'⟩
    · exact hna ((hsame n).mp hnb)
    · exact lt_asymm hlt hlt'

/-! ## Orders -/

/-- `a` stands in front of `b`. -/
def ComesBefore (order : List α) (a b : α) : Prop :=
  ∃ front back, order = front ++ b :: back ∧ a ∈ front

theorem comesBefore_or {order : List α} (ha : a ∈ order) (hb : b ∈ order) (hne : a ≠ b) :
    ComesBefore order a b ∨ ComesBefore order b a := by
  obtain ⟨front, back, rfl⟩ := List.append_of_mem hb
  rcases List.mem_append.mp ha with hfront | hback
  · exact Or.inl ⟨front, back, rfl, hfront⟩
  · have hback : a ∈ back := (List.mem_cons.mp hback).resolve_left hne
    obtain ⟨middle, rest, rfl⟩ := List.append_of_mem hback
    exact Or.inr ⟨front ++ b :: middle, rest, by simp, by simp⟩

theorem ComesBefore.rel {order : List α} (h : ComesBefore order a b) (hr : order.Pairwise r) :
    r a b := by
  obtain ⟨front, back, rfl, ha⟩ := h
  exact (List.pairwise_append.mp hr).2.2 a ha b List.mem_cons_self

end NeuralHub.Lib
