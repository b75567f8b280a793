/-
NeuralHub.Lib.Walk — loops over a list that may stop before its end.

At each element the loop looks at it in its present state, and what it sees
decides whether it goes on, and in which state, or stops with a result. The
log of a walk is what was seen, in order: it belongs to a prefix of the list
(`map_walk_prefix`), and the walk reached a further element exactly if what
was seen before it let the walk go on (`walk_next`).
-/
import Mathlib.Data.List.Basic

namespace NeuralHub.Lib

universe u v w x

/-- How a turn of the loop ends. -/
inductive Turn (σ : Type u) (ρ : Type v) where
  | goOn (state : σ)
  | stop (result : ρ)
  deriving DecidableEq, Repr

variable {σ : Type u} {ρ : Type v} {α : Type w} {τ : Type x} {look : σ → α → τ}
  {settle : τ → Turn σ ρ} {s t : σ} {a : α} {as : List α} {r : ρ}

def Turn.goesOn : Turn σ ρ → Bool
  | .goOn _ => true
  | .stop _ => false

/-- The log of a walk, and how it ends. -/
def walk (look : σ → α → τ) (settle : τ → Turn σ ρ) : σ → List α → List τ × Turn σ ρ
  | s, [] => ([], .goOn s)
  | s, a :: as =>
    match settle (look s a) with
    | .goOn t => (look s a :: (walk look settle t as).1, (walk look settle t as).2)
    | .stop r => ([look s a], .stop r)

theorem walk_cons_goOn (h : settle (look s a) = .goOn t) : walk look settle s (a :: as) =
    (look s a :: (walk look settle t as).1, (walk look settle t as).2) := by
  rw [walk, h]

theorem walk_cons_stop (h : settle (look s a) = .stop r) :
    walk look settle s (a :: as) = ([look s a], .stop r) := by
  rw [walk, h]

/-- The walk looks at the first element as it starts. -/
theorem walk_cons_head : (walk look settle s (a :: as)).1[0]? = some (look s a) := by
  cases hturn : settle (look s a) with
  | goOn t => rw [walk_cons_goOn hturn, List.getElem?_cons_zero]
  | stop r => rw [walk_cons_stop hturn, List.getElem?_cons_zero]

/-! ## The log -/

theorem map_walk_prefix {who : τ → α} (h : ∀ s a, who (look s a) = a) :
    (walk look settle s as).1.map who <+: as := by
  induction as generalizing s with
  | nil => exact List.prefix_rfl
  | cons a as ih =>
    cases hturn : settle (look s a) with
    | goOn t =>
      rw [walk_cons_goOn hturn, List.map_cons, h]
      exact List.cons_prefix_cons.mpr ⟨rfl, ih⟩
    | stop r =>
      rw [walk_cons_stop hturn, List.map_cons, h]
      exact List.cons_prefix_cons.mpr ⟨rfl, List.nil_prefix⟩

theorem walk_ne_nil (h : as ≠ []) : (walk look settle s as).1 ≠ [] := by
  cases as with
  | nil => exact absurd rfl h
  | cons a as =>
    cases hturn : settle (look s a) with
    | goOn t => simp [walk_cons_goOn hturn]
    | stop r => simp [walk_cons_stop hturn]

/-- Where there is a further element, it is reached or the walk has stopped. -/
theorem walk_next {i : Nat} {e : τ} (he : (walk look settle s as).1[i]? = some e)
    (hi : i + 1 < as.length) :
    i + 1 < (walk look settle s as).1.length ↔ (settle e).goesOn = true := by
  induction as generalizing s i with
  | nil => exact absurd hi (Nat.not_lt_zero _)
  | cons a as ih =>
    cases hturn : settle (look s a) with
    | goOn t =>
      rw [walk_cons_goOn hturn] at he ⊢
      have hi : i < as.length := by simpa using hi
      cases i with
      | zero =>
        obtain rfl : look s a = e := by simpa using he
        have hne : (walk look settle t as).1 ≠ [] := walk_ne_nil (List.ne_nil_of_length_pos hi)
        simpa [hturn, Turn.goesOn] using List.length_pos_iff.mpr hne
      | succ i => simpa using ih (by simpa using he) hi
    | stop r =>
      rw [walk_cons_stop hturn] at he ⊢
      cases i with
      | zero =>
        obtain rfl : look s a = e := by simpa using he
        simp [hturn, Turn.goesOn]
      | succ i => simp at he

/-- What stops the walk is the last it saw. -/
theorem walk_last {i : Nat} {e : τ} (he : (walk look settle s as).1[i]? = some e)
    (hstop : (settle e).goesOn = false) : i + 1 = (walk look settle s as).1.length := by
  induction as generalizing s i with
  | nil => simp [walk] at he
  | cons a as ih =>
    cases hturn : settle (look s a) with
    | goOn t =>
      rw [walk_cons_goOn hturn] at he ⊢
      cases i with
      | zero =>
        obtain rfl : look s a = e := by simpa using he
        rw [hturn] at hstop
        cases hstop
      | succ i => simpa using ih (by simpa using he)
    | stop r =>
      rw [walk_cons_stop hturn] at he ⊢
      cases i with
      | zero => rfl
      | succ i => simp at he

/-! ## The end -/

/-- A walk that is stopped is stopped by the last it saw. -/
theorem walk_stop (h : (walk look settle s as).2 = .stop r) :
    ∃ seen last, (walk look settle s as).1 = seen ++ [last] ∧ settle last = .stop r ∧
      ∀ e ∈ seen, (settle e).goesOn = true := by
  induction as generalizing s with
  | nil => cases h
  | cons a as ih =>
    cases hturn : settle (look s a) with
    | goOn t =>
      rw [walk_cons_goOn hturn] at h ⊢
      obtain ⟨seen, last, hlog, hlast, hseen⟩ := ih h
      refine ⟨look s a :: seen, last, by rw [hlog, List.cons_append], hlast, ?_⟩
      intro e he
      obtain rfl | he := List.mem_cons.mp he
      · rw [hturn, Turn.goesOn]
      · exact hseen e he
    | stop r' =>
      rw [walk_cons_stop hturn] at h ⊢
      cases h
      exact ⟨[], _, rfl, hturn, nofun⟩

/-- A walk that is not stopped went on at all it saw. -/
theorem walk_goOn (h : (walk look settle s as).2 = .goOn t) :
    ∀ e ∈ (walk look settle s as).1, (settle e).goesOn = true := by
  induction as generalizing s with
  | nil => exact nofun
  | cons a as ih =>
    cases hturn : settle (look s a) with
    | goOn t' =>
      rw [walk_cons_goOn hturn] at h ⊢
      intro e he
      obtain rfl | he := List.mem_cons.mp he
      · rw [hturn, Turn.goesOn]
      · exact ih h e he
    | stop r =>
      rw [walk_cons_stop hturn] at h
      cases h

/-- Where what is seen decides the end by stopping the walk, the end tells whether it was
seen. -/
theorem walk_end_iff {P : τ → Prop} {Q : Turn σ ρ → Prop}
    (hstops : ∀ e, P e → (settle e).goesOn = false)
    (hstop : ∀ e r, settle e = .stop r → (Q (.stop r) ↔ P e)) (hgoOn : ∀ s, ¬Q (.goOn s)) :
    Q (walk look settle s as).2 ↔ ∃ e ∈ (walk look settle s as).1, P e := by
  have hseen : ∀ e, (settle e).goesOn = true → ¬P e := by
    intro e hgoes he
    rw [hstops e he] at hgoes
    cases hgoes
  cases hend : (walk look settle s as).2 with
  | goOn t =>
    refine iff_of_false (hgoOn t) ?_
    rintro ⟨e, he, hP⟩
    exact hseen e (walk_goOn hend e he) hP
  | stop r =>
    obtain ⟨seen, last, hlog, hlast, hgoes⟩ := walk_stop hend
    rw [hstop last r hlast, hlog]
    constructor
    · exact fun hP => ⟨last, List.mem_append_right _ (List.mem_singleton_self _), hP⟩
    · rintro ⟨e, he, hP⟩
      rcases List.mem_append.mp he with he | he
      · exact absurd hP (hseen e (hgoes e he))
      · rwa [← List.mem_singleton.mp he]

/-- What each turn keeps is so at the end. -/
theorem walk_invariant {I : σ → Prop} (hs : I s)
    (hstep : ∀ s, I s → ∀ a ∈ as, ∀ t, settle (look s a) = .goOn t → I t)
    (h : (walk look settle s as).2 = .goOn t) : I t := by
  induction as generalizing s with
  | nil =>
    cases h
    exact hs
  | cons a as ih =>
    cases hturn : settle (look s a) with
    | goOn t' =>
      rw [walk_cons_goOn hturn] at h
      exact ih (hstep s hs a List.mem_cons_self t' hturn)
        (fun s hs b hb => hstep s hs b (List.mem_cons_of_mem _ hb)) h
    | stop r =>
      rw [walk_cons_stop hturn] at h
      cases h

/-- What each turn keeps holds wherever the walk looks. -/
theorem walk_seen_invariant {I : σ → Prop} {P : τ → Prop} (hs : I s)
    (hstep : ∀ s, I s → ∀ a ∈ as, ∀ t, settle (look s a) = .goOn t → I t)
    (hlook : ∀ s, I s → ∀ a ∈ as, P (look s a)) :
    ∀ e ∈ (walk look settle s as).1, P e := by
  induction as generalizing s with
  | nil => exact nofun
  | cons a as ih =>
    have hhead := hlook s hs a List.mem_cons_self
    cases hturn : settle (look s a) with
    | goOn t =>
      rw [walk_cons_goOn hturn]
      intro e he
      obtain rfl | he := List.mem_cons.mp he
      · exact hhead
      · exact ih (hstep s hs a List.mem_cons_self t hturn)
          (fun s hs b hb => hstep s hs b (List.mem_cons_of_mem _ hb))
          (fun s hs b hb => hlook s hs b (List.mem_cons_of_mem _ hb)) e he
    | stop r =>
      rw [walk_cons_stop hturn]
      intro e he
      rwa [List.mem_singleton.mp he]

/-- What holds of all that can be seen holds of what was seen. -/
theorem forall_mem_walk {P : τ → Prop} (h : ∀ s, ∀ a ∈ as, P (look s a)) :
    ∀ e ∈ (walk look settle s as).1, P e :=
  walk_seen_invariant (I := fun _ => True) trivial (fun _ _ _ _ _ _ => trivial)
    fun s _ => h s

end NeuralHub.Lib
