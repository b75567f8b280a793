/-
NeuralHub.Readonly.GuardTheorems — what the guard reads, and what it does
with it.

`isReadonlyBlocked_eq` is the source's own equation, without fuel. Its
recursion is then taken apart: `Scanned command text` says that the guard
comes to `text` by extracting substitutions, `failsOwnChecks` is what it
checks on each text it comes to, and a command is blocked if and only if
one of these texts fails (`isReadonlyBlocked_iff`).

The last section is about one turn of the scanning loop: over a character,
over an arithmetic expansion, and over a substitution, which it extracts.
-/
import NeuralHub.Readonly.Guard
import NeuralHub.Lib.Brackets

namespace NeuralHub.Readonly

open NeuralHub.Lib

/-! ## Substitutions are shorter than their text -/

theorem length_of_mem_substitutionsFrom {text s : List Char} {skip : Nat}
    (h : s ∈ substitutionsFrom skip text) : s.length < text.length := by
  induction text generalizing skip with
  | nil => simp [substitutionsFrom] at h
  | cons c rest ih =>
    have htail : ∀ {skip}, s ∈ substitutionsFrom skip rest → s.length < (c :: rest).length :=
      fun h => Nat.lt_succ_of_lt (ih h)
    cases skip with
    | succ skip => exact htail h
    | zero =>
      simp only [substitutionsFrom] at h
      split at h
      · split at h
        · exact htail h
        · rcases List.mem_cons.mp h with rfl | h
          · have htake := (List.take_sublist (skipBalanced 0 rest - 2) rest.tail).length_le
            rw [List.length_tail] at htake
            rw [List.length_cons]
            omega
          · exact htail h
      · exact htail h

theorem length_of_mem_splitBackticks {text part s : List Char}
    (h : s ∈ splitBackticks part text) : s.length ≤ part.length + text.length := by
  induction text generalizing part with
  | nil =>
    rw [List.mem_singleton.mp h]
    exact Nat.le_refl _
  | cons c rest ih =>
    simp only [splitBackticks] at h
    rw [List.length_cons]
    split at h
    · rcases List.mem_cons.mp h with rfl | h
      · omega
      · have hrest := ih h
        rw [List.length_nil] at hrest
        omega
    · have hrest := ih h
      rw [List.length_append, List.length_singleton] at hrest
      omega

theorem length_of_mem_tail_splitBackticks {text part s : List Char}
    (h : s ∈ (splitBackticks part text).tail) : s.length < text.length := by
  induction text generalizing part with
  | nil => simp [splitBackticks] at h
  | cons c rest ih =>
    simp only [splitBackticks] at h
    rw [List.length_cons]
    split at h
    · have hrest := length_of_mem_splitBackticks h
      rw [List.length_nil] at hrest
      omega
    · exact Nat.lt_succ_of_lt (ih h)

theorem mem_tail_of_mem_oddParts : ∀ {parts : List (List Char)} {s : List Char},
    s ∈ oddParts parts → s ∈ parts.tail
  | [], s, h => by simp [oddParts] at h
  | [_], s, h => by simp [oddParts] at h
  | part :: inner :: rest, s, h => by
    rcases List.mem_cons.mp h with rfl | h
    · exact List.mem_cons_self
    · exact List.mem_cons_of_mem inner (List.mem_of_mem_tail (mem_tail_of_mem_oddParts h))

theorem length_of_mem_commandSubstitutions {text s : List Char}
    (h : s ∈ commandSubstitutions text) : s.length < text.length := by
  rcases List.mem_append.mp h with h | h
  · exact length_of_mem_substitutionsFrom h
  · exact length_of_mem_tail_splitBackticks (mem_tail_of_mem_oddParts h)

/-! ## The guard's equation -/

theorem any_congr_mem {α : Type} {xs : List α} {p q : α → Bool} (h : ∀ x ∈ xs, p x = q x) :
    xs.any p = xs.any q := by
  induction xs with
  | nil => rfl
  | cons x xs ih =>
    rw [List.any_cons, List.any_cons, h x List.mem_cons_self,
      ih fun y hy => h y (List.mem_cons_of_mem x hy)]

theorem blockedWithin_eq {n m : Nat} {command : List Char} (hn : command.length < n)
    (hm : command.length < m) : blockedWithin n command = blockedWithin m command := by
  induction n generalizing m command with
  | zero => omega
  | succ n ih =>
    cases m with
    | zero => omega
    | succ m =>
      have hstrip := Text.length_strip_le command
      have hnested : (commandSubstitutions (Text.strip command)).any (blockedWithin n) =
          (commandSubstitutions (Text.strip command)).any (blockedWithin m) := by
        refine any_congr_mem fun s hs => ?_
        have hlength := length_of_mem_commandSubstitutions hs
        exact ih (by omega) (by omega)
      simp only [blockedWithin, hnested]

/-- `is_readonly_blocked`, as the source has it. -/
theorem isReadonlyBlocked_eq (command : List Char) :
    isReadonlyBlocked command =
      (let normalized := Text.strip command
      if normalized = [] then true
      else if redirects normalized then true
      else if (commandSubstitutions normalized).any isReadonlyBlocked then true
      else (splitAllSegments normalized).any segmentBlocked) := by
  have hstrip := Text.length_strip_le command
  have hnested : (commandSubstitutions (Text.strip command)).any (blockedWithin command.length) =
      (commandSubstitutions (Text.strip command)).any isReadonlyBlocked := by
    refine any_congr_mem fun s hs => ?_
    have hlength := length_of_mem_commandSubstitutions hs
    exact blockedWithin_eq (by omega) (Nat.lt_succ_self _)
  rw [isReadonlyBlocked, blockedWithin, hnested]

/-! ## The texts the guard comes to -/

/-- What is checked on a text itself: it is blank, redirects, or has a
segment whose executable or arguments are not read-only. -/
def failsOwnChecks (command : List Char) : Bool :=
  let normalized := Text.strip command
  normalized.isEmpty || redirects normalized || (splitAllSegments normalized).any segmentBlocked

/-- The guard comes from a command to each of its substitutions. -/
inductive Scanned : List Char → List Char → Prop
  | self (command : List Char) : Scanned command command
  | nested {command s text : List Char} (hs : s ∈ commandSubstitutions (Text.strip command))
      (h : Scanned s text) : Scanned command text

theorem isReadonlyBlocked_step (command : List Char) :
    isReadonlyBlocked command = true ↔ failsOwnChecks command = true ∨
      ∃ s ∈ commandSubstitutions (Text.strip command), isReadonlyBlocked s = true := by
  rw [isReadonlyBlocked_eq, ← List.any_eq_true]
  simp only [failsOwnChecks, Bool.or_eq_true, List.isEmpty_iff]
  split
  · simp [*]
  · split
    · simp [*]
    · split
      · simp [*]
      · simp [*]

theorem Scanned.blocked {command text : List Char} (h : Scanned command text)
    (ht : isReadonlyBlocked text = true) : isReadonlyBlocked command = true := by
  induction h with
  | self => exact ht
  | nested hs _ ih => exact (isReadonlyBlocked_step _).mpr (Or.inr ⟨_, hs, ih ht⟩)

/-- A command is blocked if and only if the guard comes to a text that fails its checks. -/
theorem isReadonlyBlocked_iff (command : List Char) :
    isReadonlyBlocked command = true ↔
      ∃ text, Scanned command text ∧ failsOwnChecks text = true := by
  constructor
  · intro h
    induction hlength : command.length using Nat.strong_induction_on generalizing command with
    | _ n ih =>
      rcases (isReadonlyBlocked_step command).mp h with hown | ⟨s, hs, hblocked⟩
      · exact ⟨command, .self command, hown⟩
      · have hshorter := length_of_mem_commandSubstitutions hs
        have hstrip := Text.length_strip_le command
        obtain ⟨text, hscan, hfails⟩ := ih s.length (by omega) s hblocked rfl
        exact ⟨text, .nested hs hscan, hfails⟩
  · rintro ⟨text, hscan, hfails⟩
    exact hscan.blocked ((isReadonlyBlocked_step text).mpr (Or.inl hfails))

/-! ## One turn of the scan -/

/-- The brackets that `_skip_balanced` counts. -/
def parens : Brackets Char where
  opens c := c == '('
  closes c := c == ')'
  disjoint c h := by
    rw [beq_iff_eq] at h
    rw [h]
    rfl

theorem substitutionsFrom_skip (skip : Nat) (text : List Char) :
    substitutionsFrom skip text = substitutionsFrom 0 (text.drop skip) := by
  induction text generalizing skip with
  | nil => simp [substitutionsFrom]
  | cons c rest ih =>
    cases skip with
    | zero => rfl
    | succ skip => exact ih skip

theorem skipBalanced_of_depth {inner : List Char} {n : Nat} (h : parens.depth n inner = some 0)
    (rest : List Char) : skipBalanced (n + 1) (inner ++ ')' :: rest) = inner.length + 1 := by
  induction inner generalizing n with
  | nil =>
    rw [Brackets.depth, Option.some.injEq] at h
    simp [skipBalanced, h]
  | cons c inner ih =>
    rw [List.cons_append, List.length_cons]
    rcases parens.cases_of c with ho | hc | hother
    · rw [Brackets.depth_of_opens ho] at h
      have hc : c = '(' := beq_iff_eq.mp ho
      rw [skipBalanced, if_pos hc, ih h]
    · cases n with
      | zero =>
        rw [Brackets.depth_zero_of_closes hc] at h
        cases h
      | succ n =>
        rw [Brackets.depth_of_closes hc] at h
        have hc : c = ')' := beq_iff_eq.mp hc
        simp [skipBalanced, hc, ih h]
    · rw [Brackets.depth_of_other hother] at h
      have ho : c ≠ '(' := beq_eq_false_iff_ne.mp hother.1
      have hc : c ≠ ')' := beq_eq_false_iff_ne.mp hother.2
      rw [skipBalanced, if_neg ho, if_neg hc, ih h]

/-- The region behind an opening bracket, cut at the bracket that closes it. -/
theorem exists_region {text rest : List Char} (h : parens.afterClose 0 text = some rest) :
    ∃ inner, text = inner ++ ')' :: rest ∧ parens.depth 0 inner = some 0 := by
  obtain ⟨inner, x, rfl, hc, hd⟩ := Brackets.afterClose_eq_some_iff.mp h
  have hx : x = ')' := beq_iff_eq.mp hc
  exact ⟨inner, by rw [hx], hd⟩

theorem substitutionsFrom_cons {c : Char} {rest : List Char}
    (h : ¬ (c = '$' ∧ rest.head? = some '(')) :
    substitutionsFrom 0 (c :: rest) = substitutionsFrom 0 rest := by
  rw [substitutionsFrom, if_neg h]

theorem substitutionsFrom_arithmetic {text rest : List Char}
    (h : parens.afterClose 0 text = some rest) :
    substitutionsFrom 0 ('$' :: '(' :: '(' :: text) = substitutionsFrom 0 rest := by
  obtain ⟨inner, rfl, hd⟩ := exists_region h
  have hskip : skipBalanced 0 ('(' :: (inner ++ ')' :: rest)) = inner.length + 1 + 1 := by
    rw [skipBalanced, if_pos rfl, skipBalanced_of_depth hd]
  simp [substitutionsFrom, substitutionsFrom_skip, hskip, Nat.add_comm 1]

theorem substitutionsFrom_command {inner rest : List Char} (hd : parens.depth 0 inner = some 0)
    (hhead : (inner ++ ')' :: rest).head? ≠ some '(') :
    substitutionsFrom 0 ('$' :: '(' :: (inner ++ ')' :: rest)) =
      inner :: substitutionsFrom 0 rest := by
  have hskip : skipBalanced 0 ('(' :: (inner ++ ')' :: rest)) = inner.length + 1 + 1 := by
    rw [skipBalanced, if_pos rfl, skipBalanced_of_depth hd]
  rw [substitutionsFrom, if_pos ⟨rfl, rfl⟩, List.tail_cons, if_neg hhead, hskip]
  simp [substitutionsFrom_skip]

end NeuralHub.Readonly
