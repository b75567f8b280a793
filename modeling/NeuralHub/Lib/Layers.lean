/-
NeuralHub.Lib.Layers — work in rounds: a round takes everything whose
needs are done.

An element names the elements it needs. `layers` is the rounds until
nothing is left; it fails in a round that takes nothing. Two facts about
it are all that is used. It fails exactly when the elements need each
other in a cycle (`layers_isSome_iff`). And where it does not, an element
is in round `n` when the longest chain of needs from it has `n` steps
(`mem_layers_iff`); each element is in one round (`layers_perm`).

`Layered` is what work along the rounds relies on: the needs of a round
are in the rounds before it.
-/
import NeuralHub.Lib.Chains
import Mathlib.Data.List.Perm.Subperm
import Mathlib.Data.List.Nodup

namespace NeuralHub.Lib

universe u

variable {α : Type u} [DecidableEq α] (needs : α → List α)

/-- The elements that are left whose needs are all done. -/
def readyOf (left done : List α) : List α := left.filter fun a => ∀ b ∈ needs a, b ∈ done

def layersFrom : (rounds : Nat) → (left done : List α) → Option (List (List α))
  | _, [], _ => some []
  | 0, _ :: _, _ => none
  | rounds + 1, a :: left, done =>
    match readyOf needs (a :: left) done with
    | [] => none
    | ready =>
      (layersFrom rounds ((a :: left).filter (· ∉ ready)) (done ++ ready)).map (ready :: ·)

/-- A round takes one element at least, so there are no more rounds than elements. -/
def layers (xs : List α) : Option (List (List α)) := layersFrom needs xs.length xs []

/-- `a` needs `b`, both of `xs`. -/
def Needs (xs : List α) (a b : α) : Prop := a ∈ xs ∧ b ∈ xs ∧ b ∈ needs a

/-- The needs of a layer are done, or in an earlier layer. -/
def Layered : (done : List α) → List (List α) → Prop
  | _, [] => True
  | done, layer :: rest => (∀ a ∈ layer, ∀ b ∈ needs a, b ∈ done) ∧ Layered (done ++ layer) rest

/-- Whatever is needed is there. -/
def Closed (xs : List α) : Prop := ∀ a ∈ xs, ∀ b ∈ needs a, b ∈ xs

/-- No element needs itself, directly or through others. -/
def Acyclic (xs : List α) : Prop := ∀ a, ¬Relation.TransGen (Needs needs xs) a a

variable {needs} {xs left done : List α} {rounds n : Nat} {a b : α} {ls : List (List α)}

/-! ## One round -/

theorem layersFrom_succ (hne : left ≠ []) :
    layersFrom needs (rounds + 1) left done =
      if readyOf needs left done = [] then none
      else (layersFrom needs rounds (left.filter (· ∉ readyOf needs left done))
        (done ++ readyOf needs left done)).map (readyOf needs left done :: ·) := by
  cases left with
  | nil => exact absurd rfl hne
  | cons a left =>
    rw [layersFrom]
    split
    · rename_i h
      rw [if_pos h]
    · rename_i h
      rw [if_neg (fun hnil => h hnil)]

theorem mem_readyOf : a ∈ readyOf needs left done ↔ a ∈ left ∧ ∀ b ∈ needs a, b ∈ done := by
  simp [readyOf]

/-- What a round leaves is what is not ready. -/
theorem filter_notMem_readyOf :
    left.filter (· ∉ readyOf needs left done) = left.filter fun a => ¬∀ b ∈ needs a, b ∈ done := by
  refine List.filter_congr fun a ha => ?_
  rw [decide_eq_decide, not_iff_not, mem_readyOf]
  exact and_iff_right ha

theorem readyOf_append_perm :
    (readyOf needs left done ++ left.filter (· ∉ readyOf needs left done)).Perm left := by
  rw [filter_notMem_readyOf, readyOf]
  simp only [decide_not]
  exact List.filter_append_perm _ left

theorem length_filter_notMem_lt (hne : readyOf needs left done ≠ []) :
    (left.filter (· ∉ readyOf needs left done)).length < left.length := by
  have hlength : (readyOf needs left done ++
      left.filter (· ∉ readyOf needs left done)).length = left.length :=
    readyOf_append_perm.length_eq
  have hpos := List.length_pos_iff.mpr hne
  rw [List.length_append] at hlength
  omega

/-- In front of a round: what is left are the elements with long enough chains. -/
structure InRound (needs : α → List α) (xs : List α) (n : Nat) (left done : List α) : Prop where
  sub : ∀ a ∈ left, a ∈ xs
  done_iff : ∀ b ∈ xs, b ∈ done ↔ b ∉ left
  left_iff : ∀ a ∈ xs, a ∈ left ↔ Chain (Needs needs xs) n a

omit [DecidableEq α] in
theorem InRound.ready_iff (h : InRound needs xs n left done) (hclosed : Closed needs xs)
    (ha : a ∈ left) :
    (∀ b ∈ needs a, b ∈ done) ↔ ¬Chain (Needs needs xs) (n + 1) a := by
  constructor
  · rintro hdone ⟨b, ⟨-, hb, hneed⟩, hchain⟩
    exact (h.done_iff b hb).mp (hdone b hneed) ((h.left_iff b hb).mpr hchain)
  · intro hchain b hneed
    have hb := hclosed a (h.sub a ha) b hneed
    refine (h.done_iff b hb).mpr fun hleft => hchain ⟨b, ⟨h.sub a ha, hb, hneed⟩, ?_⟩
    exact (h.left_iff b hb).mp hleft

theorem InRound.next (hclosed : Closed needs xs) (h : InRound needs xs n left done) :
    InRound needs xs (n + 1) (left.filter (· ∉ readyOf needs left done))
      (done ++ readyOf needs left done) := by
  rw [filter_notMem_readyOf]
  refine ⟨fun a ha => h.sub a (List.mem_of_mem_filter ha), fun b hb => ?_, fun a ha => ?_⟩
  · rw [List.mem_append, h.done_iff b hb, mem_readyOf, List.mem_filter, decide_eq_true_iff]
    tauto
  · rw [List.mem_filter, decide_eq_true_iff]
    constructor
    · rintro ⟨hleft, hnot⟩
      rwa [h.ready_iff hclosed hleft, not_not] at hnot
    · intro hchain
      have hleft := (h.left_iff a ha).mpr (chain_of_succ hchain)
      exact ⟨hleft, fun hdone => (h.ready_iff hclosed hleft).mp hdone hchain⟩

omit [DecidableEq α] in
theorem inRound_zero : InRound needs xs 0 xs [] :=
  ⟨fun _ ha => ha, fun _ hb => ⟨nofun, fun hnot => absurd hb hnot⟩,
    fun _ ha => ⟨fun _ => trivial, fun _ => ha⟩⟩

/-! ## All rounds -/

/-- How the rounds go on, where they come to an end. -/
theorem layersFrom_succ_eq_some (hne : left ≠ [])
    (hls : layersFrom needs (rounds + 1) left done = some ls) :
    ∃ rest, layersFrom needs rounds (left.filter (· ∉ readyOf needs left done))
      (done ++ readyOf needs left done) = some rest ∧ ls = readyOf needs left done :: rest := by
  rw [layersFrom_succ hne] at hls
  obtain ⟨-, hls⟩ := Option.ite_none_left_eq_some.mp hls
  obtain ⟨rest, hrest, rfl⟩ := Option.map_eq_some_iff.mp hls
  exact ⟨rest, hrest, rfl⟩

theorem layersFrom_nil : layersFrom needs rounds [] done = some [] := by
  cases rounds <;> rfl

theorem layersFrom_zero_eq_some (hls : layersFrom needs 0 left done = some ls) :
    left = [] ∧ ls = [] := by
  cases left with
  | nil =>
    cases hls
    exact ⟨rfl, rfl⟩
  | cons a left => cases hls

theorem mem_layersFrom_iff (hclosed : Closed needs xs) (h : InRound needs xs n left done)
    (hls : layersFrom needs rounds left done = some ls) {m : Nat} {layer : List α}
    (hm : ls[m]? = some layer) :
    a ∈ layer ↔ a ∈ xs ∧ Chain (Needs needs xs) (n + m) a ∧
      ¬Chain (Needs needs xs) (n + m + 1) a := by
  induction rounds generalizing n left done ls m with
  | zero =>
    obtain ⟨-, rfl⟩ := layersFrom_zero_eq_some hls
    cases hm
  | succ rounds ih =>
    by_cases hne : left = []
    · rw [hne, layersFrom_nil] at hls
      cases hls
      cases hm
    · obtain ⟨rest, hrest, rfl⟩ := layersFrom_succ_eq_some hne hls
      cases m with
      | zero =>
        cases hm
        rw [mem_readyOf]
        constructor
        · rintro ⟨hleft, hdone⟩
          exact ⟨h.sub a hleft, (h.left_iff a (h.sub a hleft)).mp hleft,
            (h.ready_iff hclosed hleft).mp hdone⟩
        · rintro ⟨ha, hchain, hnot⟩
          have hleft := (h.left_iff a ha).mpr hchain
          exact ⟨hleft, (h.ready_iff hclosed hleft).mpr hnot⟩
      | succ m =>
        rw [ih (h.next hclosed) hrest hm, Nat.add_right_comm n 1 m, Nat.add_assoc n m 1]

/-- An element is in the round of the length of its longest chain. -/
theorem mem_layers_iff (hclosed : Closed needs xs) (hls : layers needs xs = some ls) {m : Nat}
    {layer : List α} (hm : ls[m]? = some layer) :
    a ∈ layer ↔ a ∈ xs ∧ Chain (Needs needs xs) m a ∧ ¬Chain (Needs needs xs) (m + 1) a := by
  have hiff := mem_layersFrom_iff (a := a) hclosed inRound_zero hls hm
  rwa [Nat.zero_add] at hiff

theorem layersFrom_perm (hls : layersFrom needs rounds left done = some ls) :
    ls.flatten.Perm left := by
  induction rounds generalizing left done ls with
  | zero =>
    obtain ⟨rfl, rfl⟩ := layersFrom_zero_eq_some hls
    exact List.Perm.nil
  | succ rounds ih =>
    by_cases hne : left = []
    · rw [hne, layersFrom_nil] at hls
      cases hls
      exact hne ▸ List.Perm.nil
    · obtain ⟨rest, hrest, rfl⟩ := layersFrom_succ_eq_some hne hls
      rw [List.flatten_cons]
      exact ((ih hrest).append_left _).trans readyOf_append_perm

/-- Each element is in one round. -/
theorem layers_perm (hls : layers needs xs = some ls) : ls.flatten.Perm xs := layersFrom_perm hls

theorem layersFrom_layered (hls : layersFrom needs rounds left done = some ls) :
    Layered needs done ls := by
  induction rounds generalizing left done ls with
  | zero =>
    obtain ⟨-, rfl⟩ := layersFrom_zero_eq_some hls
    trivial
  | succ rounds ih =>
    by_cases hne : left = []
    · rw [hne, layersFrom_nil] at hls
      cases hls
      trivial
    · obtain ⟨rest, hrest, rfl⟩ := layersFrom_succ_eq_some hne hls
      exact ⟨fun a ha => (mem_readyOf.mp ha).2, ih hrest⟩

omit [DecidableEq α] in
theorem Layered.mono {done' : List α} (hdone : ∀ a ∈ done, a ∈ done')
    (h : Layered needs done ls) : Layered needs done' ls := by
  induction ls generalizing done done' with
  | nil => trivial
  | cons layer ls ih =>
    refine ⟨fun a ha b hb => hdone b (h.1 a ha b hb), ih (fun a ha => ?_) h.2⟩
    rcases List.mem_append.mp ha with ha | ha
    · exact List.mem_append_left layer (hdone a ha)
    · exact List.mem_append_right done' ha

theorem layers_layered (hls : layers needs xs = some ls) : Layered needs [] ls :=
  layersFrom_layered hls

theorem exists_layer_of_mem (hls : layers needs xs = some ls) (ha : a ∈ xs) :
    ∃ (m : Nat) (layer : List α), ls[m]? = some layer ∧ a ∈ layer := by
  obtain ⟨layer, hlayer, hmem⟩ := List.mem_flatten.mp ((layers_perm hls).mem_iff.mpr ha)
  obtain ⟨m, hm⟩ := List.mem_iff_getElem?.mp hlayer
  exact ⟨m, layer, hm, hmem⟩

/-! ## Cycles -/

theorem InRound.exists_ready (h : InRound needs xs n left done) (hclosed : Closed needs xs)
    (hacyclic : Acyclic needs xs) (ha : a ∈ left) : readyOf needs left done ≠ [] := by
  have hclear : ReachesNoCycle (Needs needs xs) a := fun b _ => hacyclic b
  have hacc := hclear.acc fun _ _ hrel => hrel.2.1
  clear hclear
  induction hacc with
  | intro a _ ih =>
    by_cases hdone : ∀ b ∈ needs a, b ∈ done
    · exact List.ne_nil_of_mem (mem_readyOf.mpr ⟨ha, hdone⟩)
    · obtain ⟨b, hb⟩ := not_forall.mp hdone
      obtain ⟨hneed, hnot⟩ := Classical.not_imp.mp hb
      have hbxs := hclosed a (h.sub a ha) b hneed
      have hbleft : b ∈ left := by
        by_contra hgone
        exact hnot ((h.done_iff b hbxs).mpr hgone)
      exact ih b ⟨h.sub a ha, hbxs, hneed⟩ hbleft

theorem layersFrom_isSome (hclosed : Closed needs xs) (hacyclic : Acyclic needs xs)
    (h : InRound needs xs n left done) (hlength : left.length ≤ rounds) :
    (layersFrom needs rounds left done).isSome := by
  induction rounds generalizing n left done with
  | zero =>
    rw [List.length_eq_zero_iff.mp (Nat.le_zero.mp hlength)]
    rfl
  | succ rounds ih =>
    by_cases hne : left = []
    · rw [hne, layersFrom_nil]
      rfl
    · obtain ⟨a, ha⟩ := List.exists_mem_of_ne_nil left hne
      have hready := h.exists_ready hclosed hacyclic ha
      rw [layersFrom_succ hne, if_neg hready, Option.isSome_map]
      refine ih (h.next hclosed) ?_
      have hlt := length_filter_notMem_lt hready
      omega

omit [DecidableEq α] in
/-- A chain grows along the needs. -/
theorem chain_of_transGen (hab : Relation.TransGen (Needs needs xs) a b) {m : Nat}
    (hm : Chain (Needs needs xs) m b) : Chain (Needs needs xs) (m + 1) a := by
  induction hab generalizing m with
  | single hrel => exact ⟨_, hrel, hm⟩
  | tail _ hrel ih => exact chain_of_succ (ih ⟨_, hrel, hm⟩)

/-- The rounds come to an end exactly when nothing needs itself. -/
theorem layers_isSome_iff (hclosed : Closed needs xs) :
    (layers needs xs).isSome ↔ Acyclic needs xs := by
  constructor
  · intro hsome a haa
    obtain ⟨ls, hls⟩ := Option.isSome_iff_exists.mp hsome
    have ha : a ∈ xs := by
      obtain ⟨b, hab, -⟩ := Relation.TransGen.head'_iff.mp haa
      exact hab.1
    obtain ⟨m, layer, hm, hmem⟩ := exists_layer_of_mem hls ha
    obtain ⟨-, hchain, hnot⟩ := (mem_layers_iff hclosed hls hm).mp hmem
    exact hnot (chain_of_transGen haa hchain)
  · intro hacyclic
    exact layersFrom_isSome hclosed hacyclic inRound_zero (Nat.le_refl _)

end NeuralHub.Lib
