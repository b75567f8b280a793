/-
NeuralHub.Lib.Pairing — logs in which a request is answered by the very
next entry.

A `Pairing` says which entries of a log are requests, which are answers,
and which answer answers which request. `Paired` logs are built from
other entries and from a request followed by its answer, so an unanswered
request or a stray answer cannot occur (`paired_iff_adjacent` is the same
property read off the positions of a log). `Pending` logs end in one
request that is still open.

A log stays paired under the operations of a log that is appended to,
rewritten and cut: `Paired.append`, `Paired.of_related` (entries replaced
by entries of the same kind), `Paired.filter` (entries dropped that are
in no pair) and `Paired.of_append_right` (cut before an entry that is no
answer).
-/
import Mathlib.Data.List.Basic
import Mathlib.Data.List.Forall2

namespace NeuralHub.Lib

universe u

/-- Requests, answers, and which answers which. -/
structure Pairing (α : Type u) where
  opens : α → Bool
  closes : α → Bool
  answers : α → α → Prop
  /-- no entry is a request and an answer -/
  disjoint : ∀ m, opens m = true → closes m = false

variable {α : Type u} (P : Pairing α)

/-- Every request is answered by the next entry, and nothing else is an answer. -/
inductive Pairing.Paired : List α → Prop
  | nil : Paired []
  | other {m : α} {rest : List α} (ho : P.opens m = false) (hc : P.closes m = false)
      (hrest : Paired rest) : Paired (m :: rest)
  | pair {m t : α} {rest : List α} (ho : P.opens m = true) (hc : P.closes t = true)
      (ha : P.answers m t) (hrest : Paired rest) : Paired (m :: t :: rest)

namespace Pairing

/-- Paired up to a last request, whose answer is still to come. -/
def Pending (log : List α) : Prop :=
  ∃ pre m, log = pre ++ [m] ∧ P.opens m = true ∧ P.Paired pre

variable {P}

/-! ## Appending and cutting -/

theorem Paired.append {xs ys : List α} (hx : P.Paired xs) (hy : P.Paired ys) :
    P.Paired (xs ++ ys) := by
  induction hx with
  | nil => exact hy
  | other ho hc _ ih => exact .other ho hc ih
  | pair ho hc ha _ ih => exact .pair ho hc ha ih

theorem Paired.of_forall {xs : List α}
    (h : ∀ m ∈ xs, P.opens m = false ∧ P.closes m = false) : P.Paired xs := by
  induction xs with
  | nil => exact .nil
  | cons m xs ih =>
    obtain ⟨ho, hc⟩ := h m List.mem_cons_self
    exact .other ho hc (ih fun m' hm' => h m' (List.mem_cons_of_mem m hm'))

theorem Paired.snoc {xs : List α} {m : α} (hx : P.Paired xs) (ho : P.opens m = false)
    (hc : P.closes m = false) : P.Paired (xs ++ [m]) :=
  hx.append (.other ho hc .nil)

theorem Paired.answer {pre : List α} {m t : α} (hpre : P.Paired pre) (ho : P.opens m = true)
    (hc : P.closes t = true) (ha : P.answers m t) : P.Paired ((pre ++ [m]) ++ [t]) := by
  rw [List.append_assoc]
  exact hpre.append (.pair ho hc ha .nil)

/-- A paired log does not begin with an answer. -/
theorem Paired.head_not_closes {t : α} {rest : List α} (h : P.Paired (t :: rest)) :
    P.closes t = false := by
  cases h with
  | other _ hc _ => exact hc
  | pair ho _ _ _ => exact P.disjoint t ho

/-- A paired log cut in front of an entry that is no answer leaves a paired rest. -/
theorem Paired.of_append_right {xs ys : List α} (h : P.Paired (xs ++ ys))
    (hy : ∀ t ∈ ys.head?, P.closes t = false) : P.Paired ys := by
  generalize hlog : xs ++ ys = log at h
  induction h generalizing xs with
  | nil =>
    obtain ⟨-, rfl⟩ := List.append_eq_nil_iff.mp hlog
    exact .nil
  | @other m rest ho hc hrest ih =>
    cases xs with
    | nil =>
      rw [List.nil_append] at hlog
      exact hlog ▸ .other ho hc hrest
    | cons x xs =>
      rw [List.cons_append, List.cons.injEq] at hlog
      exact ih hlog.2
  | @pair m t rest ho hc ha hrest ih =>
    cases xs with
    | nil =>
      rw [List.nil_append] at hlog
      exact hlog ▸ .pair ho hc ha hrest
    | cons x xs =>
      rw [List.cons_append, List.cons.injEq] at hlog
      cases xs with
      | nil =>
        rw [List.nil_append] at hlog
        have hopen : P.closes t = false := hy t (by rw [hlog.2, List.head?_cons, Option.mem_some])
        rw [hc] at hopen
        cases hopen
      | cons x' xs =>
        rw [List.cons_append, List.cons.injEq] at hlog
        exact ih hlog.2.2

/-- The last entry of a paired log is not an open request. -/
theorem Paired.last_not_opens {pre : List α} {m : α} (h : P.Paired (pre ++ [m])) :
    P.opens m = false := by
  by_contra ho
  rw [Bool.not_eq_false] at ho
  have hlast : P.Paired [m] :=
    h.of_append_right fun t ht => by
      rw [List.head?_cons, Option.mem_some] at ht
      exact ht ▸ P.disjoint m ho
  cases hlast with
  | other ho' _ _ =>
    rw [ho] at ho'
    cases ho'

/-! ## Rewriting -/

/-- Entries may be replaced one by one, as long as each keeps its kind and
answers what it answered. -/
theorem Paired.of_related {R : α → α → Prop}
    (hkind : ∀ m m', R m m' → P.opens m' = P.opens m ∧ P.closes m' = P.closes m)
    (hans : ∀ m t m' t', R m m' → R t t' → P.answers m t → P.answers m' t')
    {log log' : List α} (h : P.Paired log) (hrel : List.Forall₂ R log log') :
    P.Paired log' := by
  induction h generalizing log' with
  | nil =>
    cases hrel
    exact .nil
  | other ho hc _ ih =>
    cases hrel with
    | cons hm hrest =>
      obtain ⟨hopens, hcloses⟩ := hkind _ _ hm
      exact .other (hopens.trans ho) (hcloses.trans hc) (ih hrest)
  | pair ho hc ha _ ih =>
    cases hrel with
    | cons hm hrest =>
      cases hrest with
      | cons ht hrest =>
        exact .pair ((hkind _ _ hm).1.trans ho) ((hkind _ _ ht).2.trans hc) (hans _ _ _ _ hm ht ha)
          (ih hrest)

/-- Entries that are in no pair may be dropped. -/
theorem Paired.filter {p : α → Bool} {log : List α} (h : P.Paired log)
    (hp : ∀ m ∈ log, P.opens m = true ∨ P.closes m = true → p m = true) :
    P.Paired (log.filter p) := by
  induction h with
  | nil => exact .nil
  | @other m rest ho hc _ ih =>
    have hrest := ih fun m' hm' => hp m' (List.mem_cons_of_mem m hm')
    rw [List.filter_cons]
    split
    · exact .other ho hc hrest
    · exact hrest
  | @pair m t rest ho hc ha _ ih =>
    have hrest := ih fun m' hm' =>
      hp m' (List.mem_cons_of_mem m (List.mem_cons_of_mem t hm'))
    have hm : p m = true := hp m List.mem_cons_self (Or.inl ho)
    have ht : p t = true := hp t (List.mem_cons_of_mem m List.mem_cons_self) (Or.inr hc)
    rw [List.filter_cons_of_pos hm, List.filter_cons_of_pos ht]
    exact .pair ho hc ha hrest

/-! ## Positions -/

variable (P)

/-- A request is followed by its answer, and what comes before an answer
is a request that it answers. -/
structure Adjacent (log : List α) : Prop where
  answered : ∀ pre m post, log = pre ++ m :: post → P.opens m = true →
    ∃ t rest, post = t :: rest ∧ P.closes t = true ∧ P.answers m t
  asked : ∀ pre t post, log = pre ++ t :: post → P.closes t = true →
    ∃ before m, pre = before ++ [m] ∧ P.opens m = true ∧ P.answers m t

variable {P}

/-- What follows an entry that is no request is a log of its own. -/
theorem Adjacent.of_append {rest : List α} {m : α} (xs : List α) (h : P.Adjacent (xs ++ m :: rest))
    (ho : P.opens m = false) : P.Adjacent rest where
  answered pre x post heq hx := by
    refine h.answered (xs ++ m :: pre) x post ?_ hx
    rw [heq, List.append_assoc, List.cons_append]
  asked pre t post heq ht := by
    have hlog : xs ++ m :: rest = (xs ++ m :: pre) ++ t :: post := by
      rw [heq, List.append_assoc, List.cons_append]
    obtain ⟨before, x, hbefore, hx, ha⟩ := h.asked (xs ++ m :: pre) t post hlog ht
    obtain rfl | ⟨pre', y, rfl⟩ := pre.eq_nil_or_concat
    · have hxm : m = x := (List.append_inj' hbefore rfl).2 |> List.singleton_inj.mp
      rw [← hxm, ho] at hx
      cases hx
    · rw [List.concat_eq_append] at hbefore ⊢
      rw [← List.cons_append, ← List.append_assoc] at hbefore
      have hxy : y = x := (List.append_inj' hbefore rfl).2 |> List.singleton_inj.mp
      exact ⟨pre', x, by rw [hxy], hx, ha⟩

theorem Adjacent.head_not_closes {m : α} {rest : List α} (h : P.Adjacent (m :: rest)) :
    P.closes m = false := by
  by_contra hc
  rw [Bool.not_eq_false] at hc
  obtain ⟨before, x, heq, -⟩ := h.asked [] m rest rfl hc
  exact List.append_ne_nil_of_right_ne_nil before (List.cons_ne_nil x []) heq.symm

theorem Adjacent.paired : ∀ {log : List α}, P.Adjacent log → P.Paired log
  | [], _ => .nil
  | [m], h => by
      have ho : P.opens m = false := by
        by_contra ho
        rw [Bool.not_eq_false] at ho
        obtain ⟨t, rest, heq, -⟩ := h.answered [] m [] rfl ho
        exact List.cons_ne_nil t rest heq.symm
      exact .other ho h.head_not_closes .nil
  | m :: t :: rest, h => by
      cases ho : P.opens m with
      | false =>
        have hrest : P.Adjacent (t :: rest) := h.of_append [] ho
        exact .other ho h.head_not_closes hrest.paired
      | true =>
        obtain ⟨t', rest', heq, hc, ha⟩ := h.answered [] m (t :: rest) rfl ho
        obtain ⟨rfl, rfl⟩ := List.cons.inj heq
        have hot : P.opens t = false := by
          by_contra hot
          rw [Bool.not_eq_false] at hot
          rw [P.disjoint t hot] at hc
          cases hc
        have hrest : P.Adjacent rest := h.of_append [m] hot
        exact .pair ho hc ha hrest.paired

theorem Paired.adjacent {log : List α} (h : P.Paired log) : P.Adjacent log where
  answered pre m post heq ho := by
    have hrest : P.Paired (m :: post) := by
      subst heq
      refine h.of_append_right fun t ht => ?_
      rw [List.head?_cons, Option.mem_some] at ht
      exact ht ▸ P.disjoint m ho
    cases hrest with
    | other ho' _ _ =>
      rw [ho] at ho'
      cases ho'
    | pair _ hc ha _ => exact ⟨_, _, rfl, hc, ha⟩
  asked pre t post heq hc := by
    subst heq
    induction hn : pre.length using Nat.strongRecOn generalizing pre with
    | ind n ih =>
      match pre, h with
      | [], h =>
        rw [List.nil_append] at h
        rw [h.head_not_closes] at hc
        cases hc
      | [m], .other ho _ hrest =>
        rw [hrest.head_not_closes] at hc
        cases hc
      | [m], .pair ho _ ha _ => exact ⟨[], m, rfl, ho, ha⟩
      | m :: x :: pre, .other ho _ hrest =>
        obtain ⟨before, y, heq, hy⟩ := ih _ (by simp only [List.length_cons] at hn ⊢; omega) (x :: pre) hrest rfl
        exact ⟨m :: before, y, by rw [heq, List.cons_append], hy⟩
      | m :: x :: pre, .pair _ _ _ hrest =>
        obtain ⟨before, y, heq, hy⟩ := ih _ (by simp only [List.length_cons] at hn; omega) pre hrest rfl
        exact ⟨m :: x :: before, y, by rw [heq, List.cons_append, List.cons_append], hy⟩

theorem paired_iff_adjacent {log : List α} : P.Paired log ↔ P.Adjacent log :=
  ⟨Paired.adjacent, Adjacent.paired⟩

end Pairing

end NeuralHub.Lib
