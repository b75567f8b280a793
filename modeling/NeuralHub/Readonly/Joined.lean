/-
NeuralHub.Readonly.Joined — commands joined by a separator.

Without `$` and backticks a command is blocked for a redirection or for one
of its segments. The segments of a joined command are those of its parts
(`segments_join`), so nothing refused there is ever accepted. A redirection
is found with a look at the characters around the `>`, and at the seam these
change: a `>` that ends the first part is not found in front of `&`, one
that begins the second is not found behind `|` (`redirects_join`). Such a
redirection is lost unless something else is refused
(`joined_blocked_iff_kept`).
-/
import NeuralHub.Readonly.GuardTheorems

namespace NeuralHub.Readonly

open NeuralHub.Lib NeuralHub.Lib.Text

/-! ## Segments -/

/-- The pieces between single separators. -/
def pieces (piece : List Char) : List Char → List (List Char)
  | [] => [piece]
  | c :: rest => if isSeparator c then piece :: pieces [] rest else pieces (piece ++ [c]) rest

/-- What is left of them when blanks around and blank pieces are dropped. -/
def stripped (segments : List (List Char)) : List (List Char) :=
  (segments.map strip).filter fun segment => !segment.isEmpty

theorem stripped_cons_nil (segments : List (List Char)) :
    stripped ([] :: segments) = stripped segments := rfl

theorem stripped_append (xs ys : List (List Char)) :
    stripped (xs ++ ys) = stripped xs ++ stripped ys := by
  rw [stripped, List.map_append, List.filter_append]
  rfl

theorem stripped_cons_congr {x y : List Char} {xs ys : List (List Char)}
    (h : strip x = strip y) (hs : stripped xs = stripped ys) :
    stripped (x :: xs) = stripped (y :: ys) := by
  have hsingle : stripped [x] = stripped [y] := by
    simp only [stripped, List.map_cons, List.map_nil, h]
  have happend := congrArg₂ (· ++ ·) hsingle hs
  simpa only [← stripped_append, List.singleton_append] using happend

/-- A double separator only adds an empty piece. -/
theorem stripped_splitSegments (piece text : List Char) :
    stripped (splitSegments piece text) = stripped (pieces piece text) := by
  induction piece, text using splitSegments.induct with
  | case1 piece => rfl
  | case2 piece rest ih =>
    have hpieces : pieces piece ('|' :: '|' :: rest) = piece :: [] :: pieces [] rest := rfl
    rw [splitSegments, hpieces]
    exact stripped_cons_congr rfl (ih.trans (stripped_cons_nil _).symm)
  | case3 piece rest ih =>
    have hpieces : pieces piece ('&' :: '&' :: rest) = piece :: [] :: pieces [] rest := rfl
    rw [splitSegments, hpieces]
    exact stripped_cons_congr rfl (ih.trans (stripped_cons_nil _).symm)
  | case4 piece c rest hbar hamp hsep ih =>
    rw [splitSegments, pieces, if_pos hsep, if_pos hsep]
    · exact stripped_cons_congr rfl ih
    · exact hbar
    · exact hamp
  | case5 piece c rest hbar hamp hsep ih =>
    rw [splitSegments, pieces, if_neg hsep, if_neg hsep]
    · exact ih
    · exact hbar
    · exact hamp

theorem pieces_append (piece x : List Char) {c : Char} (hc : isSeparator c = true)
    (y : List Char) : pieces piece (x ++ c :: y) = pieces piece x ++ pieces [] y := by
  induction x generalizing piece with
  | nil => simp [pieces, hc]
  | cons d x ih =>
    rw [List.cons_append, pieces, pieces]
    split
    · rw [ih, List.cons_append]
    · exact ih (piece ++ [d])

theorem stripped_pieces_cons_space {c : Char} (hc : isSpace c = true) (piece text : List Char) :
    stripped (pieces (c :: piece) text) = stripped (pieces piece text) := by
  induction text generalizing piece with
  | nil => exact stripped_cons_congr (strip_cons_space hc piece) rfl
  | cons d text ih =>
    rw [pieces, pieces]
    split
    · exact stripped_cons_congr (strip_cons_space hc piece) rfl
    · exact ih (piece ++ [d])

theorem stripped_pieces_append_space (piece text : List Char) {c : Char}
    (hc : isSpace c = true) :
    stripped (pieces piece (text ++ [c])) = stripped (pieces piece text) := by
  induction text generalizing piece with
  | nil =>
    show stripped (if isSeparator c then [piece, []] else [piece ++ [c]]) = stripped [piece]
    split
    · exact stripped_cons_congr rfl rfl
    · exact stripped_cons_congr (strip_append_space piece hc) rfl
  | cons d text ih =>
    rw [List.cons_append, pieces, pieces]
    split
    · exact stripped_cons_congr rfl (ih [])
    · exact ih (piece ++ [d])

/-- The segments of a command, as they are checked. -/
def segments (command : List Char) : List (List Char) := stripped (splitSegments [] command)

theorem segments_strip (command : List Char) : segments (strip command) = segments command := by
  refine eq_strip_of_space ?_ ?_ command
  · intro c s hc
    rw [segments, segments, stripped_splitSegments, stripped_splitSegments, pieces]
    split
    · exact stripped_cons_nil _
    · exact stripped_pieces_cons_space hc [] s
  · intro s c hc
    rw [segments, segments, stripped_splitSegments, stripped_splitSegments,
      stripped_pieces_append_space [] s hc]

theorem segments_append (a : List Char) {c : Char} (hc : isSeparator c = true) (b : List Char) :
    segments (a ++ c :: b) = segments a ++ segments b := by
  rw [segments, segments, segments, stripped_splitSegments, stripped_splitSegments,
    stripped_splitSegments, pieces_append [] a hc, stripped_append]

theorem segments_cons (c : Char) (hc : isSeparator c = true) (b : List Char) :
    segments (c :: b) = segments b := segments_append [] hc b

/-- A segment is checked without the blanks around it. -/
theorem segmentBlocked_strip (segment : List Char) :
    segmentBlocked (strip segment) = segmentBlocked segment := by
  rw [segmentBlocked, segmentBlocked, shlexTokens, shlexTokens, strip_strip]

theorem any_splitAllSegments (command : List Char) :
    (splitAllSegments command).any segmentBlocked = (segments command).any segmentBlocked := by
  rw [splitAllSegments, segments, stripped, List.filter_map, List.any_map]
  have hsame : segmentBlocked ∘ strip = segmentBlocked := funext segmentBlocked_strip
  rw [hsame]
  rfl

/-! ## Redirections -/

/-- Only a bar in front of the text matters. -/
theorem redirectsFrom_of_ne {p : Option Char} (hp : p ≠ some '|') (text : List Char) :
    redirectsFrom p text = redirectsFrom none text := by
  cases text with
  | nil => rfl
  | cons c rest =>
    have hbar : (p != some '|') = true := bne_iff_ne.mpr hp
    rw [redirectsFrom, redirectsFrom, hbar]
    rfl

theorem redirectsFrom_append (p : Option Char) (x : List Char) {c : Char} (hc : c ≠ '>')
    (y : List Char) : redirectsFrom p (x ++ c :: y) =
      (redirectsFrom p (x ++ [c]) || redirectsFrom (some c) y) := by
  induction x generalizing p with
  | nil =>
    have hno : (c == '>') = false := beq_eq_false_iff_ne.mpr hc
    simp [redirectsFrom, hno]
  | cons d x ih =>
    rw [List.cons_append, List.cons_append, redirectsFrom, redirectsFrom, ih, Bool.or_assoc]
    cases x <;> rfl

theorem doubled_cons_iff {c : Char} {text : List Char} : ['>', '>'] <:+: c :: text ↔
    c = '>' ∧ text.head? = some '>' ∨ ['>', '>'] <:+: text := by
  rw [List.infix_cons_iff, List.cons_prefix_cons, eq_comm]
  cases text with
  | nil => simp
  | cons d text => simp [List.cons_prefix_cons, eq_comm]

theorem doubled_append_iff (x : List Char) {c : Char} (hc : c ≠ '>') (y : List Char) :
    ['>', '>'] <:+: x ++ c :: y ↔ ['>', '>'] <:+: x ∨ ['>', '>'] <:+: y := by
  induction x with
  | nil => simp [doubled_cons_iff, hc]
  | cons d x ih =>
    rw [List.cons_append, doubled_cons_iff, doubled_cons_iff, ih, or_assoc]
    cases x with
    | nil => simp [hc]
    | cons e x => rfl

theorem redirects_iff (text : List Char) :
    redirects text = true ↔ redirectsFrom none text = true ∨ ['>', '>'] <:+: text := by
  rw [redirects, Bool.or_eq_true, decide_eq_true_iff]

theorem ne_of_isSpace {c : Char} (h : isSpace c = true) : c ≠ '>' ∧ c ≠ '|' ∧ c ≠ '&' := by
  refine ⟨?_, ?_, ?_⟩ <;> rintro rfl <;> exact absurd h (by decide)

theorem redirects_cons {c : Char} (hgreater : c ≠ '>') (hbar : c ≠ '|') (text : List Char) :
    redirects (c :: text) = redirects text := by
  rw [Bool.eq_iff_iff, redirects_iff, redirects_iff, doubled_cons_iff, redirectsFrom,
    redirectsFrom_of_ne (by simpa using hbar)]
  simp [hgreater]

theorem redirects_concat {c : Char} (hgreater : c ≠ '>') (hamp : c ≠ '&') (text : List Char) :
    redirects (text ++ [c]) = redirects text := by
  have hfrom : ∀ p, redirectsFrom p (text ++ [c]) = redirectsFrom p text := by
    intro p
    induction text generalizing p with
    | nil => simp [redirectsFrom, beq_eq_false_iff_ne.mpr hgreater]
    | cons d text ih =>
      rw [List.cons_append, redirectsFrom, redirectsFrom, ih]
      cases text with
      | nil =>
        have hnext : (some c != some '>') = true ∧ (some c != some '&') = true :=
          ⟨by simpa using hgreater, by simpa using hamp⟩
        rw [List.nil_append, List.head?_cons, hnext.1, hnext.2]
        rfl
      | cons e text => rfl
  rw [Bool.eq_iff_iff, redirects_iff, redirects_iff, hfrom, doubled_append_iff text hgreater]
  simp

theorem redirects_strip (command : List Char) : redirects (strip command) = redirects command := by
  refine eq_strip_of_space (fun c s hc => ?_) (fun s c hc => ?_) command
  · obtain ⟨hgreater, hbar, -⟩ := ne_of_isSpace hc
    exact redirects_cons hgreater hbar s
  · obtain ⟨hgreater, -, hamp⟩ := ne_of_isSpace hc
    exact redirects_concat hgreater hamp s

/-- The separators by which commands are joined. -/
def separators : List (List Char) := [[';'], ['\n'], ['&'], ['|'], ['&', '&'], ['|', '|']]

/-- A separator is a character that separates, once or twice. -/
theorem separator_cases {s : List Char} (hs : s ∈ separators) :
    ∃ c, isSeparator c = true ∧ c ≠ '>' ∧ (s = [c] ∨ s = [c, c]) := by
  simp only [separators, List.mem_cons, List.not_mem_nil, or_false] at hs
  rcases hs with rfl | rfl | rfl | rfl | rfl | rfl
  · exact ⟨';', rfl, by decide, Or.inl rfl⟩
  · exact ⟨'\n', rfl, by decide, Or.inl rfl⟩
  · exact ⟨'&', rfl, by decide, Or.inl rfl⟩
  · exact ⟨'|', rfl, by decide, Or.inl rfl⟩
  · exact ⟨'&', rfl, by decide, Or.inr rfl⟩
  · exact ⟨'|', rfl, by decide, Or.inr rfl⟩

theorem redirects_append {c : Char} (hc : c ≠ '>') (x y : List Char) :
    redirects (x ++ c :: y) = true ↔ redirects (x ++ [c]) = true ∨ redirects (c :: y) = true := by
  have hno : (c == '>') = false := beq_eq_false_iff_ne.mpr hc
  rw [redirects_iff, redirects_iff, redirects_iff, redirectsFrom_append none x hc,
    doubled_append_iff x hc, doubled_append_iff x hc, doubled_cons_iff, redirectsFrom, hno]
  simp [hc]
  tauto

theorem redirects_join {s : List Char} (hs : s ∈ separators) (a b : List Char) :
    redirects (a ++ s ++ b) = true ↔ redirects (a ++ s) = true ∨ redirects (s ++ b) = true := by
  obtain ⟨c, -, hc, rfl | rfl⟩ := separator_cases hs
  · rw [List.append_assoc]
    exact redirects_append hc a b
  · have hnone : redirects [c, c] ≠ true := by
      have hno : (c == '>') = false := beq_eq_false_iff_ne.mpr hc
      rw [ne_eq, redirects_iff, redirectsFrom, redirectsFrom, redirectsFrom, hno]
      simp [doubled_cons_iff, hc]
    have hleft := redirects_append hc a [c]
    have hall := redirects_append hc a (c :: b)
    rw [List.append_assoc]
    simp only [List.cons_append, List.nil_append] at hleft hall ⊢
    tauto

/-- A redirection in front of the separator is found, unless it is a last `>` in front
of `&`. -/
theorem redirectsFrom_front {p : Option Char} {a : List Char} {c : Char} (hc : c ≠ '>')
    (h : redirectsFrom p a = true) :
    redirectsFrom p (a ++ [c]) = true ∨ a.getLast? = some '>' ∧ c = '&' := by
  induction a generalizing p with
  | nil => cases h
  | cons d a ih =>
    rw [List.cons_append, redirectsFrom, Bool.or_eq_true]
    rw [redirectsFrom, Bool.or_eq_true] at h
    cases a with
    | nil =>
      by_cases hamp : c = '&'
      · refine Or.inr ⟨?_, hamp⟩
        simp only [redirectsFrom, Bool.false_eq_true, or_false, Bool.and_eq_true,
          beq_iff_eq] at h
        rw [h.1.1.1, List.getLast?_singleton]
      · have hnext : (some c != some '>') = true ∧ (some c != some '&') = true :=
          ⟨by simpa using hc, by simpa using hamp⟩
        refine Or.inl (h.imp_left ?_ |>.imp_right nofun)
        rw [List.nil_append, List.head?_cons, hnext.1, hnext.2]
        exact id
    | cons e a =>
      rcases h with h | h
      · exact Or.inl (Or.inl h)
      · rw [List.getLast?_cons_cons]
        exact (ih h).imp_left Or.inr

/-- One behind the separator is found, unless it is a first `>` behind `|`. -/
theorem redirectsFrom_behind {b : List Char} {c : Char} (h : redirectsFrom none b = true) :
    redirectsFrom (some c) b = true ∨ b.head? = some '>' ∧ c = '|' := by
  by_cases hbar : c = '|'
  · cases b with
    | nil => cases h
    | cons d b =>
      rw [redirectsFrom, Bool.or_eq_true] at h
      rw [redirectsFrom, Bool.or_eq_true]
      rcases h with h | h
      · simp only [Bool.and_eq_true, beq_iff_eq] at h
        exact Or.inr ⟨by rw [List.head?_cons, h.1.1.1], hbar⟩
      · exact Or.inl (Or.inr h)
  · rw [redirectsFrom_of_ne (by simpa using hbar)]
    exact Or.inl h

theorem redirects_front {a s : List Char} (hs : s ∈ separators) (h : redirects a = true) :
    redirects (a ++ s) = true ∨ a.getLast? = some '>' ∧ s.head? = some '&' := by
  obtain ⟨c, -, hc, hcases⟩ := separator_cases hs
  have hhead : s.head? = some c := by rcases hcases with rfl | rfl <;> rfl
  have hfront : redirects (a ++ [c]) = true ∨ a.getLast? = some '>' ∧ c = '&' := by
    rw [redirects_iff, doubled_append_iff a hc]
    rcases (redirects_iff a).mp h with h | h
    · exact (redirectsFrom_front hc h).imp_left Or.inl
    · exact Or.inl (Or.inr (Or.inl h))
  rw [hhead, Option.some.injEq]
  refine hfront.imp_left fun hfound => ?_
  rcases hcases with rfl | rfl
  · exact hfound
  · exact (redirects_append hc a [c]).mpr (Or.inl hfound)

theorem redirects_behind {b s : List Char} (hs : s ∈ separators) (h : redirects b = true) :
    redirects (s ++ b) = true ∨ b.head? = some '>' ∧ s.getLast? = some '|' := by
  obtain ⟨c, -, hc, hcases⟩ := separator_cases hs
  have hlast : s.getLast? = some c := by rcases hcases with rfl | rfl <;> rfl
  have hbehind : redirects (c :: b) = true ∨ b.head? = some '>' ∧ c = '|' := by
    have hno : (c == '>') = false := beq_eq_false_iff_ne.mpr hc
    rw [redirects_iff, doubled_cons_iff, redirectsFrom, hno]
    rcases (redirects_iff b).mp h with h | h
    · exact (redirectsFrom_behind h).imp_left Or.inl
    · exact Or.inl (Or.inr (Or.inr h))
  rw [hlast, Option.some.injEq]
  refine hbehind.imp_left fun hfound => ?_
  rcases hcases with rfl | rfl
  · exact hfound
  · exact (redirects_append (x := [c]) hc b).mpr (Or.inr hfound)

/-! ## Joined commands -/

/-- No substitution begins in the command. -/
def Plain (command : List Char) : Prop := '$' ∉ command ∧ '\x60' ∉ command

instance (command : List Char) : Decidable (Plain command) :=
  inferInstanceAs (Decidable (_ ∧ _))

theorem substitutionsFrom_of_plain {text : List Char} (h : '$' ∉ text) :
    substitutionsFrom 0 text = [] := by
  induction text with
  | nil => rfl
  | cons c rest ih =>
    rw [List.mem_cons, not_or] at h
    rw [substitutionsFrom_cons fun hc => h.1 hc.1.symm, ih h.2]

theorem splitBackticks_of_plain {part text : List Char} (h : '\x60' ∉ text) :
    splitBackticks part text = [part ++ text] := by
  induction text generalizing part with
  | nil => rw [splitBackticks, List.append_nil]
  | cons c rest ih =>
    rw [List.mem_cons, not_or] at h
    rw [splitBackticks, if_neg fun hc => h.1 hc.symm, ih h.2, List.append_assoc,
      List.singleton_append]

theorem commandSubstitutions_of_plain {command : List Char} (h : Plain command) :
    commandSubstitutions command = [] := by
  rw [commandSubstitutions, substitutionsFrom_of_plain h.1, splitBackticks_of_plain h.2]
  rfl

theorem subset_strip (command : List Char) : strip command ⊆ command := by
  intro c hc
  rw [strip, rstrip, List.mem_reverse] at hc
  have hleft := (List.dropWhile_sublist _).subset hc
  rw [List.mem_reverse, lstrip] at hleft
  exact (List.dropWhile_sublist _).subset hleft

theorem Plain.strip {command : List Char} (h : Plain command) : Plain (strip command) :=
  ⟨fun hc => h.1 (subset_strip command hc), fun hc => h.2 (subset_strip command hc)⟩

/-- What a command without substitutions is blocked for. -/
theorem isReadonlyBlocked_plain {command : List Char} (h : Plain command)
    (hblank : strip command ≠ []) : isReadonlyBlocked command = true ↔
      redirects command = true ∨ (splitAllSegments command).any segmentBlocked = true := by
  rw [isReadonlyBlocked_step, commandSubstitutions_of_plain h.strip]
  simp only [failsOwnChecks, redirects_strip, any_splitAllSegments, segments_strip,
    Bool.or_eq_true, List.isEmpty_iff, hblank, false_or, List.not_mem_nil, false_and,
    exists_false, or_false]

theorem segments_join {s : List Char} (hs : s ∈ separators) (a b : List Char) :
    segments (a ++ s ++ b) = segments a ++ segments b := by
  obtain ⟨c, hsep, -, rfl | rfl⟩ := separator_cases hs
  · rw [List.append_assoc]
    exact segments_append a hsep b
  · rw [List.append_assoc]
    exact (segments_append a hsep (c :: b)).trans (by rw [segments_cons c hsep])

/-- A redirection is lost where the commands are joined. -/
def RedirectsAtSeam (a s b : List Char) : Prop :=
  (redirects a = true ∧ a.getLast? = some '>' ∧ s.head? = some '&') ∨
    (redirects b = true ∧ b.head? = some '>' ∧ s.getLast? = some '|')

/-- The joined command redirects elsewhere, or has a segment that is refused. -/
def RefusedElsewhere (a s b : List Char) : Prop :=
  redirects (a ++ s) = true ∨ redirects (s ++ b) = true ∨
    (splitAllSegments a ++ splitAllSegments b).any segmentBlocked = true

theorem Plain.join {a s b : List Char} (ha : Plain a) (hs : s ∈ separators) (hb : Plain b) :
    Plain (a ++ s ++ b) := by
  have hplain : ∀ c, (c = '$' ∨ c = '\x60') → c ∉ s := by
    simp only [separators, List.mem_cons, List.not_mem_nil, or_false] at hs
    rcases hs with rfl | rfl | rfl | rfl | rfl | rfl <;> rintro c (rfl | rfl) <;> decide
  simp only [Plain, List.mem_append, not_or]
  exact ⟨⟨⟨ha.1, hplain _ (Or.inl rfl)⟩, hb.1⟩, ⟨ha.2, hplain _ (Or.inr rfl)⟩, hb.2⟩

theorem isReadonlyBlocked_join {a s b : List Char} (ha : strip a ≠ []) (hpa : Plain a)
    (hpb : Plain b) (hs : s ∈ separators) :
    isReadonlyBlocked (a ++ s ++ b) = true ↔ RefusedElsewhere a s b := by
  have hblank : strip (a ++ s ++ b) ≠ [] := by
    rw [ne_eq, strip_eq_nil_iff] at ha ⊢
    exact fun h => ha fun c hc => h c (List.mem_append_left _ (List.mem_append_left _ hc))
  rw [isReadonlyBlocked_plain (hpa.join hs hpb) hblank, redirects_join hs, any_splitAllSegments,
    segments_join hs, List.any_append, RefusedElsewhere, List.any_append, any_splitAllSegments,
    any_splitAllSegments, or_assoc]

/-- **When joining keeps commands blocked.** With two commands that are not blank and have
no substitutions, the joined command is blocked as soon as one of them is, exactly if a
redirection at the seam comes with something else that is refused. -/
theorem joined_blocked_iff_kept {a s b : List Char} (ha : strip a ≠ []) (hb : strip b ≠ [])
    (hpa : Plain a) (hpb : Plain b) (hs : s ∈ separators) :
    (isReadonlyBlocked a = true ∨ isReadonlyBlocked b = true →
      isReadonlyBlocked (a ++ s ++ b) = true) ↔
    (RedirectsAtSeam a s b → RefusedElsewhere a s b) := by
  rw [isReadonlyBlocked_join ha hpa hpb hs, isReadonlyBlocked_plain hpa ha,
    isReadonlyBlocked_plain hpb hb]
  have hsegments : ∀ command ∈ [a, b], (splitAllSegments command).any segmentBlocked = true →
      RefusedElsewhere a s b := by
    intro command hcommand h
    refine Or.inr (Or.inr ?_)
    rw [List.any_append, Bool.or_eq_true]
    rcases List.mem_pair.mp hcommand with rfl | rfl
    · exact Or.inl h
    · exact Or.inr h
  constructor
  · rintro h (⟨hredirects, -⟩ | ⟨hredirects, -⟩)
    · exact h (Or.inl (Or.inl hredirects))
    · exact h (Or.inr (Or.inl hredirects))
  · rintro h ((hredirects | hblocked) | (hredirects | hblocked))
    · rcases redirects_front hs hredirects with hfound | hseam
      · exact Or.inl hfound
      · exact h (Or.inl ⟨hredirects, hseam⟩)
    · exact hsegments a List.mem_cons_self hblocked
    · rcases redirects_behind hs hredirects with hfound | hseam
      · exact Or.inr (Or.inl hfound)
      · exact h (Or.inr ⟨hredirects, hseam⟩)
    · exact hsegments b (List.mem_cons_of_mem a (List.mem_singleton_self b)) hblocked

theorem redirection_blocked_in_list :
    isReadonlyBlocked ("cat a > b".toList ++ [';'] ++ "ls".toList) = true := by
  have hkept := joined_blocked_iff_kept (a := "cat a > b".toList) (s := [';'])
    (b := "ls".toList) (by decide) (by decide) (by decide) (by decide) (by decide)
  refine hkept.mpr ?_ (Or.inl (by decide +kernel))
  exact fun _ => Or.inl (by decide +kernel)

/-- Behind a bar the redirection is not found, and a path that ends in a listed name passes
for the executable. -/
theorem joined_not_always_blocked : ¬∀ a s b : List Char, strip a ≠ [] → strip b ≠ [] →
    Plain a → Plain b → s ∈ separators →
    isReadonlyBlocked a = true ∨ isReadonlyBlocked b = true →
    isReadonlyBlocked (a ++ s ++ b) = true := by
  intro h
  have hblocked := h "cat x".toList ['|'] ">/tmp/ls".toList (by decide) (by decide) (by decide)
    (by decide) (by decide) (Or.inr (by decide +kernel))
  exact absurd hblocked (by decide +kernel)

end NeuralHub.Readonly
