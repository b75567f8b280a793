/-
NeuralHub.Lib.Windows — pieces of a list that lie in windows of it.

`Windowed … s lo hi windows chunks` says that the chunks are what is shown
of the windows of `s`, one after the other, all between `lo` and `hi`; that
their ends grow and neighbours overlap by a bounded amount; and that every
element between `lo` and `hi` that is not blank is in a window.

The rules put such lists together: side by side (`Windowed.append`), one
window in front of others that reach back into it (`Windowed.cons`), blank
elements in front (`Windowed.skip`), and inside of a longer list
(`Windowed.shift`).
-/
import Mathlib.Data.List.Chain
import Mathlib.Data.List.Forall2

namespace NeuralHub.Lib

universe u v

variable {α : Type u} {β : Type v}

/-- `s[lo:hi]`. -/
def slice (s : List α) (w : Nat × Nat) : List α := (s.take w.2).drop w.1

structure Windowed (blank : α → Bool) (shown : List α → β → Prop) (overlap : Nat) (s : List α)
    (lo hi : Nat) (windows : List (Nat × Nat)) (chunks : List β) : Prop where
  matched : List.Forall₂ (fun w c => shown (slice s w) c) windows chunks
  inside : ∀ w ∈ windows, lo ≤ w.1 ∧ w.1 < w.2 ∧ w.2 ≤ hi
  ordered : windows.IsChain fun w w' => w.2 < w'.2 ∧ w.2 ≤ w'.1 + overlap
  covers : ∀ i c, lo ≤ i → i < hi → s[i]? = some c → blank c = false →
    ∃ w ∈ windows, w.1 ≤ i ∧ i < w.2

/-- Nothing but blanks. -/
def BlankIn (blank : α → Bool) (s : List α) (lo hi : Nat) : Prop :=
  ∀ i c, lo ≤ i → i < hi → s[i]? = some c → blank c = true

variable {blank : α → Bool} {shown : List α → β → Prop} {overlap : Nat} {s : List α}
  {lo mid hi : Nat} {windows windows' : List (Nat × Nat)} {chunks chunks' : List β} {c : β}

theorem blankIn_slice (h : ∀ c ∈ slice s (lo, hi), blank c = true) : BlankIn blank s lo hi := by
  intro i c hlo hhi hi
  refine h c ?_
  obtain ⟨hlt, rfl⟩ := List.getElem?_eq_some_iff.mp hi
  refine List.mem_iff_getElem?.mpr ⟨i - lo, ?_⟩
  rw [slice, List.getElem?_drop, List.getElem?_take_of_lt (by omega),
    show lo + (i - lo) = i by omega, List.getElem?_eq_getElem hlt]

theorem windowed_blank (h : BlankIn blank s lo hi) :
    Windowed blank shown overlap s lo hi [] [] where
  matched := .nil
  inside _ hw := absurd hw List.not_mem_nil
  ordered := .nil
  covers i c hlo hhi hi hc := by
    rw [h i c hlo hhi hi] at hc
    cases hc

theorem windowed_one (hlt : lo < hi) (h : shown (slice s (lo, hi)) c) :
    Windowed blank shown overlap s lo hi [(lo, hi)] [c] where
  matched := .cons h .nil
  inside w hw := by
    rw [List.mem_singleton.mp hw]
    exact ⟨Nat.le_refl _, hlt, Nat.le_refl _⟩
  ordered := .singleton _
  covers i _ hlo hhi _ _ := ⟨(lo, hi), List.mem_singleton_self _, hlo, hhi⟩

/-- Windows side by side. -/
theorem Windowed.append (h : Windowed blank shown overlap s lo mid windows chunks)
    (h' : Windowed blank shown overlap s mid hi windows' chunks') (hlo : lo ≤ mid)
    (hhi : mid ≤ hi) :
    Windowed blank shown overlap s lo hi (windows ++ windows') (chunks ++ chunks') where
  matched := List.rel_append h.matched h'.matched
  inside w hw := by
    rcases List.mem_append.mp hw with hw | hw
    · have := h.inside w hw
      omega
    · have := h'.inside w hw
      omega
  ordered := by
    refine List.isChain_append.mpr ⟨h.ordered, h'.ordered, fun x hx y hy => ?_⟩
    have hleft := h.inside x (List.mem_of_getLast? hx)
    have hright := h'.inside y (List.mem_of_head? hy)
    omega
  covers i c hge hlt hi hc := by
    by_cases hi' : i < mid
    · obtain ⟨w, hw, hin⟩ := h.covers i c hge hi' hi hc
      exact ⟨w, List.mem_append_left _ hw, hin⟩
    · obtain ⟨w, hw, hin⟩ := h'.covers i c (by omega) hlt hi hc
      exact ⟨w, List.mem_append_right _ hw, hin⟩

/-- Blanks in front, where windows may begin already. -/
theorem Windowed.skip {stop : Nat} (hblank : BlankIn blank s lo stop) (hlo : lo ≤ mid)
    (hmid : mid ≤ stop) (h : Windowed blank shown overlap s mid hi windows chunks) :
    Windowed blank shown overlap s lo hi windows chunks where
  matched := h.matched
  inside w hw := by
    have := h.inside w hw
    omega
  ordered := h.ordered
  covers i c hge hlt hi hc := by
    by_cases hi' : i < stop
    · rw [hblank i c hge hi' hi] at hc
      cases hc
    · exact h.covers i c (by omega) hlt hi hc

/-- A window in front of others that reach back into it. -/
theorem Windowed.cons {stop : Nat} (hshown : shown (slice s (lo, stop)) c) (hlt : lo < stop)
    (hlo : lo ≤ mid) (hmid : mid ≤ stop) (hoverlap : stop ≤ mid + overlap) (hhi : stop ≤ hi)
    (hends : ∀ w ∈ windows, stop < w.2)
    (h : Windowed blank shown overlap s mid hi windows chunks) :
    Windowed blank shown overlap s lo hi ((lo, stop) :: windows) (c :: chunks) where
  matched := .cons hshown h.matched
  inside w hw := by
    rcases List.mem_cons.mp hw with rfl | hw
    · exact ⟨Nat.le_refl _, hlt, hhi⟩
    · have := h.inside w hw
      omega
  ordered := by
    refine List.isChain_cons.mpr ⟨fun y hy => ?_, h.ordered⟩
    have hy := List.mem_of_head? hy
    have hinside := h.inside y hy
    exact ⟨hends y hy, by omega⟩
  covers i c hge hlt hi hc := by
    by_cases hi' : i < stop
    · exact ⟨(lo, stop), List.mem_cons_self, hge, hi'⟩
    · obtain ⟨w, hw, hin⟩ := h.covers i c (by omega) hlt hi hc
      exact ⟨w, List.mem_cons_of_mem _ hw, hin⟩

theorem slice_append (pre s post : List α) {w : Nat × Nat} (hw : w.2 ≤ s.length) :
    slice (pre ++ s ++ post) (pre.length + w.1, pre.length + w.2) = slice s w := by
  rw [slice, List.append_assoc, List.take_length_add_append, List.take_append_of_le_length hw,
    List.drop_length_add_append, slice]

/-- Windows of a part are windows of the whole. -/
theorem Windowed.shift (pre post : List α) (hhi : hi ≤ s.length)
    (h : Windowed blank shown overlap s lo hi windows chunks) :
    Windowed blank shown overlap (pre ++ s ++ post) (pre.length + lo) (pre.length + hi)
      (windows.map fun w => (pre.length + w.1, pre.length + w.2)) chunks where
  matched := by
    rw [List.forall₂_map_left_iff]
    refine List.Forall₂.imp ?_
      ((List.forall₂_and_left _ _).mpr ⟨fun w hw => h.inside w hw, h.matched⟩)
    rintro w c ⟨hw, hshown⟩
    rwa [slice_append pre s post (by omega)]
  inside w hw := by
    obtain ⟨x, hx, rfl⟩ := List.mem_map.mp hw
    have := h.inside x hx
    dsimp only
    omega
  ordered := by
    refine List.isChain_map_of_isChain _ (fun w w' hww => ?_) h.ordered
    dsimp only
    omega
  covers i c hge hlt hi hc := by
    rw [List.append_assoc, List.getElem?_append_right (by omega),
      List.getElem?_append_left (by omega)] at hi
    obtain ⟨w, hw, hin⟩ := h.covers (i - pre.length) c (by omega) (by omega) hi hc
    exact ⟨_, List.mem_map_of_mem hw, by dsimp only; omega, by dsimp only; omega⟩

end NeuralHub.Lib
