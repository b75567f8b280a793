/-
NeuralHub.Readonly.Nested — which nested commands the guard sees.

A shell runs the command in `$(…)` and in `<(…)` wherever they stand. The
guard extracts the first, but not from inside an arithmetic expansion,
which it skips as a whole, and it does not know the second.

`Scan pre subs o` says what the guard's loop makes of the text in front of
the nested command: it extracts `subs` and leaves `o` open, which is
nothing, a substitution or an arithmetic expansion. What it makes of the
whole command follows (`substitutions_nest`): when nothing is open, it
extracts the command of `$(…)`; in an open substitution, the text of this
one, in which the command is nested again; in an arithmetic expansion,
nothing. `Stopped` collects on this way what makes the guard refuse, and
`blocked_nest_iff` says that there is nothing else.
-/
import NeuralHub.Readonly.Joined

namespace NeuralHub.Readonly

open NeuralHub.Lib

/-- A command with `w` between an opening and a closing bracket. -/
def nest (opening : String) (pre w post : List Char) : List Char :=
  pre ++ opening.toList ++ w ++ ")".toList ++ post

/-! ## What a text leaves open -/

/-- `command`: in the substitution whose text has begun with `text`,
`depth` more brackets are open. `arithmetic`: `depth + 1` brackets are open
since the second one of `$((`. -/
inductive Open
  | nothing
  | command (depth : Nat) (text : List Char)
  | arithmetic (depth : Nat)

/-- The scan of a text extracts these substitutions and leaves this open. -/
inductive Scan : List Char → List (List Char) → Open → Prop
  | done : Scan [] [] .nothing
  | other {c : Char} {rest : List Char} {subs : List (List Char)} {o : Open}
      (hc : ¬ (c = '$' ∧ rest.head? = some '(')) (h : Scan rest subs o) :
      Scan (c :: rest) subs o
  | arithmetic {inner rest : List Char} {subs : List (List Char)} {o : Open}
      (hd : parens.depth 0 inner = some 0) (h : Scan rest subs o) :
      Scan ('$' :: '(' :: '(' :: (inner ++ ')' :: rest)) subs o
  | command {inner rest : List Char} {subs : List (List Char)} {o : Open}
      (hd : parens.depth 0 inner = some 0) (hhead : inner.head? ≠ some '(')
      (h : Scan rest subs o) : Scan ('$' :: '(' :: (inner ++ ')' :: rest)) (inner :: subs) o
  | openArithmetic {text : List Char} {n : Nat} (hd : parens.depth 0 text = some n) :
      Scan ('$' :: '(' :: '(' :: text) [] (.arithmetic n)
  | openCommand {text : List Char} {n : Nat} (hd : parens.depth 0 text = some n)
      (hhead : text.head? ≠ some '(') : Scan ('$' :: '(' :: text) [] (.command n text)

/-- What is scanned behind the bracket that closes what is open. -/
def Open.rest : Open → List Char → Option (List Char)
  | .nothing, post => some post
  | .command depth _, post => parens.afterClose depth post
  | .arithmetic depth, post => parens.afterClose depth post

/-- How much of `post` is in an open substitution: what stands in front of
the bracket that closes it, and all but the last character when none does. -/
def within (depth : Nat) (post : List Char) : Option (List Char) :=
  match parens.afterClose depth post with
  | some rest => some (post.take (post.length - rest.length - 1))
  | none => if post = [] then none else some post.dropLast

/-! ## What stops a nested command -/

/-- The segments of two texts written one after the other: the last of the
first and the first of the second run together. -/
def glue : List (List Char) → List (List Char) → List (List Char)
  | [], ys => ys
  | [x], ys => (x ++ ys.headD []) :: ys.tail
  | x :: xs, ys => x :: glue xs ys

/-- The segments of a command with `w` nested in it, from those of its parts. -/
def nestedSegments (opening : String) (pre w post : List Char) : List (List Char) :=
  stripped (glue (glue (pieces [] pre) (pieces [] opening.toList))
    (glue (pieces [] w) (glue (pieces [] ")".toList) (pieces [] post))))

/-- Why the guard refuses a command with the blocked `w` nested in it. -/
inductive Stopped (opening : String) (w : List Char) : List Char → List Char → Prop
  /-- a part redirects -/
  | redirection {pre post : List Char}
      (h : redirects pre = true ∨ redirects w = true ∨ redirects post = true) :
      Stopped opening w pre post
  /-- the executable or the arguments of a segment are refused -/
  | segment {pre post : List Char}
      (h : (nestedSegments opening pre w post).any segmentBlocked = true) :
      Stopped opening w pre post
  /-- nothing is open in front of `$(w)`, so that `w` is extracted -/
  | seen {pre post : List Char} {subs : List (List Char)} (hopening : opening = "$(")
      (hscan : Scan (Text.lstrip pre) subs .nothing) : Stopped opening w pre post
  /-- nothing is open in front of `<(w)`, and a substitution in `w` is blocked -/
  | inner {pre post s : List Char} {subs : List (List Char)} (hopening : opening = "<(")
      (hscan : Scan (Text.lstrip pre) subs .nothing) (hs : s ∈ substitutionsFrom 0 w)
      (h : isReadonlyBlocked s = true) : Stopped opening w pre post
  /-- a substitution in `pre` is blocked -/
  | before {pre post s : List Char} {subs : List (List Char)} {o : Open}
      (hscan : Scan (Text.lstrip pre) subs o) (hs : s ∈ subs)
      (h : isReadonlyBlocked s = true) : Stopped opening w pre post
  /-- a substitution is blocked in `post`, behind what `pre` leaves open -/
  | behind {pre post rest s : List Char} {subs : List (List Char)} {o : Open}
      (hscan : Scan (Text.lstrip pre) subs o) (hrest : o.rest (Text.rstrip post) = some rest)
      (hs : s ∈ substitutionsFrom 0 rest) (h : isReadonlyBlocked s = true) :
      Stopped opening w pre post
  /-- `pre` leaves a substitution open, in which the same command is stopped -/
  | around {pre post q r : List Char} {n : Nat} {subs : List (List Char)}
      (hscan : Scan (Text.lstrip pre) subs (.command n q))
      (hwithin : within n (Text.rstrip post) = some r) (h : Stopped opening w q r) :
      Stopped opening w pre post
  /-- `pre` leaves a substitution open that loses the last bracket, and is blocked so -/
  | cut {pre post q : List Char} {n : Nat} {subs : List (List Char)}
      (hscan : Scan (Text.lstrip pre) subs (.command n q))
      (hwithin : within n (Text.rstrip post) = none)
      (h : isReadonlyBlocked (q ++ opening.toList ++ w) = true) : Stopped opening w pre post
  /-- the same command is stopped in backticks around it -/
  | quoted {pre post q r : List Char}
      (hs : nest opening q w r ∈ oddParts (splitBackticks []
        (nest opening (Text.lstrip pre) w (Text.rstrip post))))
      (h : Stopped opening w q r) : Stopped opening w pre post
  /-- a command in other backticks is blocked -/
  | backticks {pre post s : List Char}
      (hs : s ∈ oddParts (splitBackticks []
        (nest opening (Text.lstrip pre) w (Text.rstrip post))))
      (hother : ∀ q r, s ≠ nest opening q w r) (h : isReadonlyBlocked s = true) :
      Stopped opening w pre post

/-! ## Turns of the scan that do not end -/

theorem skipBalanced_open {text : List Char} {n : Nat} (h : parens.afterClose n text = none) :
    skipBalanced (n + 1) text = text.length := by
  induction text generalizing n with
  | nil => rfl
  | cons c text ih =>
    rw [List.length_cons]
    rcases parens.cases_of c with ho | hc | hother
    · rw [Brackets.afterClose_of_opens ho] at h
      rw [skipBalanced, if_pos (beq_iff_eq.mp ho), ih h]
    · cases n with
      | zero =>
        rw [Brackets.afterClose_zero_of_closes hc] at h
        cases h
      | succ n =>
        rw [Brackets.afterClose_of_closes hc] at h
        have hc : c = ')' := beq_iff_eq.mp hc
        simp [skipBalanced, hc, ih h]
    · rw [Brackets.afterClose_of_other hother] at h
      have ho : c ≠ '(' := beq_eq_false_iff_ne.mp hother.1
      have hc : c ≠ ')' := beq_eq_false_iff_ne.mp hother.2
      rw [skipBalanced, if_neg ho, if_neg hc, ih h]

theorem substitutionsFrom_openArithmetic {text : List Char}
    (h : parens.afterClose 0 text = none) :
    substitutionsFrom 0 ('$' :: '(' :: '(' :: text) = [] := by
  have hskip : skipBalanced 0 ('(' :: text) = text.length + 1 := by
    rw [skipBalanced, if_pos rfl, skipBalanced_open h]
  have hall : List.drop (1 + (text.length + 1)) ('(' :: '(' :: text) = [] :=
    List.drop_eq_nil_of_le (by simp only [List.length_cons]; omega)
  rw [substitutionsFrom, if_pos ⟨rfl, rfl⟩, List.tail_cons, List.head?_cons, if_pos rfl, hskip,
    substitutionsFrom_skip, hall]
  rfl

theorem substitutionsFrom_openCommand {text : List Char} (h : parens.afterClose 0 text = none)
    (hhead : text.head? ≠ some '(') :
    substitutionsFrom 0 ('$' :: '(' :: text) = [text.dropLast] := by
  have hskip : skipBalanced 0 ('(' :: text) = text.length + 1 := by
    rw [skipBalanced, if_pos rfl, skipBalanced_open h]
  have hall : List.drop (text.length + 1) ('(' :: text) = [] :=
    List.drop_eq_nil_of_le (Nat.le_refl _)
  rw [substitutionsFrom, if_pos ⟨rfl, rfl⟩, List.tail_cons, if_neg hhead, hskip]
  dsimp only
  rw [substitutionsFrom_skip, hall, List.dropLast_eq_take]
  rfl

/-! ## What the scan makes of a longer text -/

theorem head_append_ne {c : Char} {xs ys : List Char} (hx : xs.head? ≠ some c)
    (hy : ys.head? ≠ some c) : (xs ++ ys).head? ≠ some c := by
  cases xs with
  | nil => exact hy
  | cons x xs => exact hx

/-- The substitutions that the scan extracts from `tail` on. -/
def Open.behind : Open → List Char → List (List Char)
  | .nothing, tail => substitutionsFrom 0 tail
  | .command depth text, tail =>
    match parens.afterClose depth tail with
    | some rest =>
      (text ++ tail.take (tail.length - rest.length - 1)) :: substitutionsFrom 0 rest
    | none => [(text ++ tail).dropLast]
  | .arithmetic depth, tail =>
    match parens.afterClose depth tail with
    | some rest => substitutionsFrom 0 rest
    | none => []

theorem take_of_close (inner : List Char) (x : Char) (rest : List Char) :
    (inner ++ x :: rest).take ((inner ++ x :: rest).length - rest.length - 1) = inner := by
  have hlength : (inner ++ x :: rest).length - rest.length - 1 = inner.length := by
    rw [List.length_append, List.length_cons]
    omega
  rw [hlength, List.take_left]

theorem Scan.append {pre tail : List Char} {subs : List (List Char)} {o : Open}
    (h : Scan pre subs o) (htail : tail.head? ≠ some '(') :
    substitutionsFrom 0 (pre ++ tail) = subs ++ o.behind tail := by
  induction h with
  | done => rfl
  | @other c rest subs o hc h ih =>
    rw [List.cons_append, substitutionsFrom_cons, ih]
    rintro ⟨hdollar, hhead⟩
    exact head_append_ne (fun hrest => hc ⟨hdollar, hrest⟩) htail hhead
  | @arithmetic inner rest subs o hd h ih =>
    have hclose : parens.afterClose 0 (inner ++ ')' :: (rest ++ tail)) = some (rest ++ tail) :=
      Brackets.afterClose_eq_some_iff.mpr ⟨inner, ')', rfl, rfl, hd⟩
    rw [List.cons_append, List.cons_append, List.cons_append, List.append_assoc,
      List.cons_append, substitutionsFrom_arithmetic hclose, ih]
  | @command inner rest subs o hd hhead h ih =>
    rw [List.cons_append, List.cons_append, List.append_assoc, List.cons_append,
      substitutionsFrom_command hd (head_append_ne hhead (by simp)), ih, List.cons_append]
  | @openArithmetic text n hd =>
    have hclose : parens.afterClose 0 (text ++ tail) = parens.afterClose n tail :=
      Brackets.afterClose_append hd
    rw [List.cons_append, List.cons_append, List.cons_append, List.nil_append, Open.behind]
    cases hrest : parens.afterClose n tail with
    | some rest => exact substitutionsFrom_arithmetic (hclose.trans hrest)
    | none => exact substitutionsFrom_openArithmetic (hclose.trans hrest)
  | @openCommand text n hd hhead =>
    have hclose : parens.afterClose 0 (text ++ tail) = parens.afterClose n tail :=
      Brackets.afterClose_append hd
    rw [List.cons_append, List.cons_append, List.nil_append, Open.behind]
    cases hrest : parens.afterClose n tail with
    | some rest =>
      obtain ⟨inner, x, rfl, hx, hinner⟩ := Brackets.afterClose_eq_some_iff.mp hrest
      have hx : x = ')' := beq_iff_eq.mp hx
      have hall : parens.depth 0 (text ++ inner) = some 0 := by
        rw [Brackets.depth_append hd, hinner]
      have hlong := head_append_ne hhead htail
      rw [hx] at hlong ⊢
      rw [← List.append_assoc] at hlong ⊢
      dsimp only
      rw [substitutionsFrom_command hall hlong, take_of_close]
    | none =>
      exact substitutionsFrom_openCommand (hclose.trans hrest) (head_append_ne hhead htail)

/-- Every text is scanned. -/
theorem exists_scan (text : List Char) : ∃ subs o, Scan text subs o := by
  induction hn : text.length using Nat.strong_induction_on generalizing text with
  | _ n ih =>
    subst hn
    cases text with
    | nil => exact ⟨_, _, .done⟩
    | cons c rest =>
      by_cases hdollar : c = '$' ∧ rest.head? = some '('
      · obtain ⟨rfl, hrest⟩ := hdollar
        obtain ⟨q, rfl⟩ : ∃ q, rest = '(' :: q := List.head?_eq_some_iff.mp hrest
        by_cases hq : q.head? = some '('
        · obtain ⟨text, rfl⟩ := List.head?_eq_some_iff.mp hq
          cases hclose : parens.afterClose 0 text with
          | some rest =>
            have hlength := Brackets.length_of_afterClose hclose
            obtain ⟨inner, rfl, hd⟩ := exists_region hclose
            obtain ⟨subs, o, h⟩ := ih rest.length
              (by simp only [List.length_cons] at hlength ⊢; omega) rest rfl
            exact ⟨subs, o, .arithmetic hd h⟩
          | none =>
            obtain ⟨m, hd⟩ := Brackets.depth_of_afterClose_eq_none hclose
            exact ⟨_, _, .openArithmetic hd⟩
        · cases hclose : parens.afterClose 0 q with
          | some rest =>
            have hlength := Brackets.length_of_afterClose hclose
            obtain ⟨inner, rfl, hd⟩ := exists_region hclose
            obtain ⟨subs, o, h⟩ := ih rest.length
              (by simp only [List.length_cons] at hlength ⊢; omega) rest rfl
            refine ⟨_, o, .command hd ?_ h⟩
            cases inner with
            | nil => simp
            | cons x inner => exact hq
          | none =>
            obtain ⟨m, hd⟩ := Brackets.depth_of_afterClose_eq_none hclose
            exact ⟨_, _, .openCommand hd hq⟩
      · obtain ⟨subs, o, h⟩ := ih rest.length (Nat.lt_succ_self _) rest rfl
        exact ⟨subs, o, .other hdollar h⟩

/-- What is open in a text is open in its brackets. -/
theorem Scan.depth_pos {text : List Char} {subs : List (List Char)} {o : Open}
    (h : Scan text subs o) (ho : o ≠ .nothing) {k d : Nat} (hd : parens.depth k text = some d) :
    0 < d := by
  induction h generalizing k with
  | done => exact absurd rfl ho
  | @other c rest subs o hc h ih =>
    rcases parens.cases_of c with hopens | hcloses | hother
    · rw [Brackets.depth_of_opens hopens] at hd
      exact ih ho hd
    · cases k with
      | zero =>
        rw [Brackets.depth_zero_of_closes hcloses] at hd
        cases hd
      | succ k =>
        rw [Brackets.depth_of_closes hcloses] at hd
        exact ih ho hd
    · rw [Brackets.depth_of_other hother] at hd
      exact ih ho hd
  | @arithmetic inner rest subs o hinner h ih =>
    rw [Brackets.depth_of_other ⟨rfl, rfl⟩, Brackets.depth_of_opens rfl,
      Brackets.depth_of_opens rfl, Brackets.depth_append (Brackets.Balanced.depth hinner _),
      Brackets.depth_of_closes rfl] at hd
    exact ih ho hd
  | @command inner rest subs o hinner hhead h ih =>
    rw [Brackets.depth_of_other ⟨rfl, rfl⟩, Brackets.depth_of_opens rfl,
      Brackets.depth_append (Brackets.Balanced.depth hinner _),
      Brackets.depth_of_closes rfl] at hd
    exact ih ho hd
  | @openArithmetic text n htext =>
    have hadd := Brackets.depth_add (k + 2) htext
    rw [Nat.zero_add] at hadd
    rw [Brackets.depth_of_other ⟨rfl, rfl⟩, Brackets.depth_of_opens rfl,
      Brackets.depth_of_opens rfl, hadd, Option.some.injEq] at hd
    omega
  | @openCommand text n htext hhead =>
    have hadd := Brackets.depth_add (k + 1) htext
    rw [Nat.zero_add] at hadd
    rw [Brackets.depth_of_other ⟨rfl, rfl⟩, Brackets.depth_of_opens rfl, hadd,
      Option.some.injEq] at hd
    omega

theorem scan_balanced {w : List Char} (hw : parens.Balanced w) :
    Scan w (substitutionsFrom 0 w) .nothing := by
  obtain ⟨subs, o, h⟩ := exists_scan w
  have ho : o = .nothing := by
    by_contra ho
    exact absurd (h.depth_pos ho hw) (Nat.lt_irrefl 0)
  subst ho
  have hnil : ([] : List Char).head? ≠ some '(' := by simp
  have happend := h.append hnil
  rw [List.append_nil, Open.behind, substitutionsFrom, List.append_nil] at happend
  rwa [happend]

/-! ## The nested command -/

theorem opening_cases {opening : String} (h : opening = "$(" ∨ opening = "<(") :
    ∃ c, (c = '$' ∨ c = '<') ∧ opening.toList = [c, '('] := by
  rcases h with rfl | rfl
  · exact ⟨'$', Or.inl rfl, rfl⟩
  · exact ⟨'<', Or.inr rfl, rfl⟩

theorem nest_eq {opening : String} {c : Char} (h : opening.toList = [c, '('])
    (pre w post : List Char) :
    nest opening pre w post = pre ++ c :: '(' :: w ++ ')' :: post := by
  simp [nest, h]

/-- What the scan extracts between the substitutions of `pre` and those behind it. -/
def extracted (opening : String) (w post : List Char) : Open → List (List Char)
  | .nothing => if opening = "$(" then [w] else substitutionsFrom 0 w
  | .command depth text =>
    match within depth post with
    | some r => [nest opening text w r]
    | none => [text ++ opening.toList ++ w]
  | .arithmetic _ => []

/-- The nested command does not change what is open. -/
theorem afterClose_nested {c : Char} (hc : c = '$' ∨ c = '<') {w : List Char}
    (hw : parens.Balanced w) (n : Nat) (post : List Char) :
    parens.afterClose n (c :: '(' :: w ++ ')' :: post) = parens.afterClose n post := by
  have hother : parens.opens c = false ∧ parens.closes c = false := by
    rcases hc with rfl | rfl <;> exact ⟨rfl, rfl⟩
  rw [List.cons_append, List.cons_append, Brackets.afterClose_of_other hother,
    Brackets.afterClose_of_opens rfl, Brackets.afterClose_append (hw.depth _),
    Brackets.afterClose_of_closes rfl]

/-- What the scan extracts from an open substitution around the nested command. -/
theorem behind_command {opening : String} {c : Char} (hopening : opening.toList = [c, '('])
    (hc : c = '$' ∨ c = '<') {w : List Char} (hw : parens.Balanced w) (depth : Nat)
    (text post : List Char) :
    (Open.command depth text).behind (c :: '(' :: w ++ ')' :: post) =
      extracted opening w post (.command depth text) ++
        ((Open.command depth text).rest post).elim [] (substitutionsFrom 0) := by
  have hmiddle : c :: '(' :: w ++ ')' :: post = (c :: '(' :: w ++ [')']) ++ post := by simp
  rw [Open.behind, afterClose_nested hc hw, extracted, within, Open.rest]
  cases hrest : parens.afterClose depth post with
  | some rest =>
    have hlt := Brackets.length_of_afterClose hrest
    have hlength : ((c :: '(' :: w ++ [')']) ++ post).length - rest.length - 1 =
        (c :: '(' :: w ++ [')']).length + (post.length - rest.length - 1) := by
      rw [List.length_append]
      omega
    dsimp only
    rw [hmiddle, hlength, List.take_length_add_append, nest_eq hopening]
    simp
  | none =>
    dsimp only
    by_cases hpost : post = []
    · rw [if_pos hpost, hpost, hopening, ← List.append_assoc, List.dropLast_concat]
      simp
    · rw [if_neg hpost, hmiddle, ← List.append_assoc, List.dropLast_append_of_ne_nil hpost]
      dsimp only
      rw [nest_eq hopening]
      simp

/-- What the scan of a command with `w` nested in it extracts. -/
theorem substitutions_nest {opening : String} (hopening : opening = "$(" ∨ opening = "<(")
    {pre w post : List Char} {subs : List (List Char)} {o : Open} (hw : parens.Balanced w)
    (hhead : w.head? ≠ some '(') (hscan : Scan pre subs o) :
    substitutionsFrom 0 (nest opening pre w post) =
      subs ++ (extracted opening w post o ++ (o.rest post).elim [] (substitutionsFrom 0)) := by
  obtain ⟨c, hc, hlist⟩ := opening_cases hopening
  have hne : (c :: '(' :: w ++ ')' :: post).head? ≠ some '(' := by
    rcases hc with rfl | rfl <;> simp
  rw [nest_eq hlist, List.append_assoc, hscan.append hne]
  congr 1
  cases o with
  | command depth text => exact behind_command hlist hc hw depth text post
  | arithmetic depth =>
    rw [Open.behind, afterClose_nested hc hw, extracted, Open.rest]
    cases parens.afterClose depth post with
    | some rest => rfl
    | none => rfl
  | nothing =>
    rw [Open.behind, extracted, Open.rest, Option.elim]
    rcases hopening with rfl | rfl
    · obtain rfl : c = '$' := (List.cons.inj hlist).1.symm
      rw [if_pos rfl, List.cons_append, List.cons_append,
        substitutionsFrom_command hw (head_append_ne hhead (by simp))]
      rfl
    · obtain rfl : c = '<' := (List.cons.inj hlist).1.symm
      rw [if_neg (by decide), List.cons_append, List.cons_append,
        substitutionsFrom_cons (by simp), substitutionsFrom_cons (by simp),
        (scan_balanced hw).append (by simp), Open.behind, substitutionsFrom_cons (by simp)]

/-! ## The checks on the whole command -/

theorem redirects_nest {opening : String} {c : Char} (hopening : opening.toList = [c, '('])
    (hc : c = '$' ∨ c = '<') (pre w post : List Char) :
    redirects (nest opening pre w post) = true ↔
      redirects pre = true ∨ redirects w = true ∨ redirects post = true := by
  obtain ⟨hgreater, hbar, hamp⟩ : c ≠ '>' ∧ c ≠ '|' ∧ c ≠ '&' := by
    rcases hc with rfl | rfl <;> decide
  rw [nest_eq hopening, List.append_assoc, List.cons_append, List.cons_append,
    redirects_append hgreater, redirects_concat hgreater hamp, redirects_cons hgreater hbar,
    redirects_cons (by decide) (by decide), redirects_append (by decide),
    redirects_concat (by decide) (by decide), redirects_cons (by decide) (by decide)]

theorem pieces_ne_nil (piece text : List Char) : pieces piece text ≠ [] := by
  induction text generalizing piece with
  | nil => simp [pieces]
  | cons c text ih =>
    rw [pieces]
    split
    · simp
    · exact ih _

theorem glue_cons {xs : List (List Char)} (h : xs ≠ []) (x : List Char)
    (ys : List (List Char)) : glue (x :: xs) ys = x :: glue xs ys := by
  cases xs with
  | nil => exact absurd rfl h
  | cons y xs => rfl

/-- A piece that has begun already. -/
theorem pieces_eq_glue (piece text : List Char) :
    pieces piece text = glue [piece] (pieces [] text) := by
  induction text generalizing piece with
  | nil => simp [pieces, glue]
  | cons c text ih =>
    rw [pieces, pieces]
    split
    · simp [glue]
    · rw [List.nil_append, ih (piece ++ [c]), ih [c]]
      simp [glue]

theorem pieces_glue (piece xs ys : List Char) :
    pieces piece (xs ++ ys) = glue (pieces piece xs) (pieces [] ys) := by
  induction xs generalizing piece with
  | nil => exact pieces_eq_glue piece ys
  | cons c xs ih =>
    rw [List.cons_append, pieces, pieces]
    split
    · rw [ih, glue_cons (pieces_ne_nil [] xs)]
    · exact ih _

theorem segments_nest (opening : String) (pre w post : List Char) :
    segments (nest opening pre w post) = nestedSegments opening pre w post := by
  have hparts : nest opening pre w post =
      (pre ++ opening.toList) ++ (w ++ (")".toList ++ post)) := by simp [nest]
  rw [segments, stripped_splitSegments, hparts, pieces_glue, pieces_glue, pieces_glue,
    pieces_glue, nestedSegments]

theorem failsOwnChecks_nest {opening : String} {c : Char} (hopening : opening.toList = [c, '('])
    (hc : c = '$' ∨ c = '<') (pre w post : List Char) :
    failsOwnChecks (nest opening pre w post) = true ↔
      (redirects pre = true ∨ redirects w = true ∨ redirects post = true) ∨
        (nestedSegments opening pre w post).any segmentBlocked = true := by
  have hblank : Text.strip (nest opening pre w post) ≠ [] := by
    rw [ne_eq, Text.strip_eq_nil_iff, nest_eq hopening]
    intro hspace
    have hbracket : Text.isSpace '(' = true := hspace '(' (by simp)
    exact absurd hbracket (by decide)
  rw [← redirects_nest hopening hc, ← segments_nest]
  simp only [failsOwnChecks, redirects_strip, any_splitAllSegments, segments_strip,
    Bool.or_eq_true, List.isEmpty_iff, hblank, false_or]

/-! ## When the guard refuses -/

section Refusal

variable {opening : String} {w : List Char}

theorem strip_nest {c : Char} (hopening : opening.toList = [c, '('])
    (hc : c = '$' ∨ c = '<') (pre post : List Char) :
    Text.strip (nest opening pre w post) =
      nest opening (Text.lstrip pre) w (Text.rstrip post) := by
  have hspace : Text.isSpace c = false := by rcases hc with rfl | rfl <;> decide
  rw [nest_eq hopening, nest_eq hopening]
  exact Text.strip_between hspace (by decide) pre ('(' :: w) post

/-- A blocked substitution blocks the command. -/
theorem blocked_of_extracted {command s : List Char}
    (hs : s ∈ commandSubstitutions (Text.strip command)) (h : isReadonlyBlocked s = true) :
    isReadonlyBlocked command = true :=
  (isReadonlyBlocked_step command).mpr (Or.inr ⟨s, hs, h⟩)

theorem Stopped.blocked (hopening : opening = "$(" ∨ opening = "<(") (hw : parens.Balanced w)
    (hhead : w.head? ≠ some '(') (hblocked : isReadonlyBlocked w = true) {pre post : List Char}
    (h : Stopped opening w pre post) : isReadonlyBlocked (nest opening pre w post) = true := by
  obtain ⟨c, hc, hlist⟩ := opening_cases hopening
  have hown : ∀ pre post, (redirects pre = true ∨ redirects w = true ∨ redirects post = true) ∨
      (nestedSegments opening pre w post).any segmentBlocked = true →
        isReadonlyBlocked (nest opening pre w post) = true := fun pre post hfails =>
    (isReadonlyBlocked_step _).mpr (Or.inl ((failsOwnChecks_nest hlist hc pre w post).mpr hfails))
  have hscanned : ∀ {pre post s subs o}, Scan (Text.lstrip pre) subs o →
      s ∈ subs ++ (extracted opening w (Text.rstrip post) o ++
        (o.rest (Text.rstrip post)).elim [] (substitutionsFrom 0)) →
      isReadonlyBlocked s = true → isReadonlyBlocked (nest opening pre w post) = true := by
    intro pre post s subs o hscan hs hbad
    refine blocked_of_extracted (List.mem_append_left _ ?_) hbad
    rw [strip_nest hlist hc, substitutions_nest hopening hw hhead hscan]
    exact hs
  have hticked : ∀ {pre post s}, s ∈ oddParts (splitBackticks []
      (nest opening (Text.lstrip pre) w (Text.rstrip post))) →
      isReadonlyBlocked s = true → isReadonlyBlocked (nest opening pre w post) = true := by
    intro pre post s hs hbad
    refine blocked_of_extracted (List.mem_append_right _ ?_) hbad
    rw [strip_nest hlist hc]
    exact hs
  induction h with
  | redirection h => exact hown _ _ (Or.inl h)
  | segment h => exact hown _ _ (Or.inr h)
  | seen hdollar hscan =>
    refine hscanned hscan (List.mem_append_right _ (List.mem_append_left _ ?_)) hblocked
    rw [extracted, if_pos hdollar]
    exact List.mem_singleton_self w
  | inner hless hscan hs h =>
    refine hscanned hscan (List.mem_append_right _ (List.mem_append_left _ ?_)) h
    rw [extracted, hless, if_neg (by decide)]
    exact hs
  | before hscan hs h => exact hscanned hscan (List.mem_append_left _ hs) h
  | behind hscan hrest hs h =>
    refine hscanned hscan (List.mem_append_right _ (List.mem_append_right _ ?_)) h
    rw [hrest]
    exact hs
  | around hscan hwithin h ih =>
    refine hscanned hscan (List.mem_append_right _ (List.mem_append_left _ ?_)) ih
    rw [extracted, hwithin]
    exact List.mem_singleton_self _
  | cut hscan hwithin h =>
    refine hscanned hscan (List.mem_append_right _ (List.mem_append_left _ ?_)) h
    rw [extracted, hwithin]
    exact List.mem_singleton_self _
  | quoted hs h ih => exact hticked hs ih
  | backticks hs hother h => exact hticked hs h

/-- **Why a nested command is refused.** -/
theorem blocked_nest_iff (hopening : opening = "$(" ∨ opening = "<(") (hw : parens.Balanced w)
    (hhead : w.head? ≠ some '(') (hblocked : isReadonlyBlocked w = true) (pre post : List Char) :
    isReadonlyBlocked (nest opening pre w post) = true ↔ Stopped opening w pre post := by
  refine ⟨fun h => ?_, Stopped.blocked hopening hw hhead hblocked⟩
  obtain ⟨c, hc, hlist⟩ := opening_cases hopening
  induction hn : (nest opening pre w post).length using Nat.strong_induction_on
    generalizing pre post with
  | _ n ih =>
    subst hn
    rcases (isReadonlyBlocked_step _).mp h with hown | ⟨s, hs, hbad⟩
    · rcases (failsOwnChecks_nest hlist hc pre w post).mp hown with hredirects | hsegment
      · exact .redirection hredirects
      · exact .segment hsegment
    · have hshorter := length_of_mem_commandSubstitutions hs
      have hstrip := Text.length_strip_le (nest opening pre w post)
      -- the same command in a shorter text
      have hnested : ∀ q r, s = nest opening q w r → Stopped opening w q r := by
        rintro q r rfl
        exact ih _ (by omega) q r hbad rfl
      rw [strip_nest hlist hc] at hs
      rcases List.mem_append.mp hs with hs | hs
      · obtain ⟨subs, o, hscan⟩ := exists_scan (Text.lstrip pre)
        rw [substitutions_nest hopening hw hhead hscan] at hs
        rcases List.mem_append.mp hs with hs | hs
        · exact .before hscan hs hbad
        · rcases List.mem_append.mp hs with hs | hs
          · cases o with
            | nothing =>
              rcases hopening with rfl | rfl
              · exact .seen rfl hscan
              · rw [extracted, if_neg (by decide)] at hs
                exact .inner rfl hscan hs hbad
            | command depth text =>
              rw [extracted] at hs
              split at hs
              · rename_i r hwithin
                exact .around hscan hwithin (hnested text r (List.mem_singleton.mp hs))
              · rename_i hwithin
                exact .cut hscan hwithin (List.mem_singleton.mp hs ▸ hbad)
            | arithmetic depth => cases hs
          · cases hrest : o.rest (Text.rstrip post) with
            | none =>
              rw [hrest] at hs
              cases hs
            | some rest =>
              rw [hrest] at hs
              exact .behind hscan hrest hs hbad
      · by_cases hnest : ∃ q r, s = nest opening q w r
        · obtain ⟨q, r, rfl⟩ := hnest
          exact .quoted hs (hnested q r rfl)
        · exact .backticks hs (fun q r he => hnest ⟨q, r, he⟩) hbad

end Refusal

/-- **When nested commands are seen.** A blocked command keeps the command it
is nested in blocked, as `$(…)` and as `<(…)`, if and only if something on
the guard's way stops either of them. -/
theorem nested_command_blocked_iff {w : List Char} (pre post : List Char)
    (hw : parens.Balanced w) (hhead : w.head? ≠ some '(') (hblocked : isReadonlyBlocked w = true) :
    (isReadonlyBlocked (nest "$(" pre w post) = true ∧
        isReadonlyBlocked (nest "<(" pre w post) = true) ↔
      Stopped "$(" w pre post ∧ Stopped "<(" w pre post := by
  rw [blocked_nest_iff (Or.inl rfl) hw hhead hblocked,
    blocked_nest_iff (Or.inr rfl) hw hhead hblocked]

/-- In `ls; $(touch x)` and `ls; <(touch x)` both are blocked. -/
theorem nested_command_blocked_behind_separator :
    isReadonlyBlocked (nest "$(" "ls; ".toList "touch x".toList []) = true ∧
      isReadonlyBlocked (nest "<(" "ls; ".toList "touch x".toList []) = true := by
  have hscan : Scan (Text.lstrip "ls; ".toList) [] .nothing :=
    .other (by decide) (.other (by decide) (.other (by decide) (.other (by decide) .done)))
  exact (nested_command_blocked_iff "ls; ".toList [] (by decide) (by decide) (by decide)).mpr
    ⟨.seen rfl hscan, .segment (by decide)⟩

/-- The shell runs `touch x` in `echo $(( $(touch x) ))`, which the guard
lets pass. -/
theorem arithmetic_hides_command :
    ¬ ∀ pre w post : List Char, parens.Balanced w → w.head? ≠ some '(' →
      isReadonlyBlocked w = true →
      isReadonlyBlocked (nest "$(" pre w post) = true ∧
        isReadonlyBlocked (nest "<(" pre w post) = true := by
  intro hclaim
  have hblocked := (hclaim "echo $(( ".toList "touch x".toList " ))".toList (by decide) (by decide)
    (by decide)).1
  have hpasses : isReadonlyBlocked (nest "$(" "echo $(( ".toList "touch x".toList " ))".toList) =
      false := by decide
  rw [hpasses] at hblocked
  cases hblocked

example : isReadonlyBlocked "cat <(touch x)".toList = false := by decide

example : isReadonlyBlocked "echo $((1+1))".toList = false := by decide

end NeuralHub.Readonly
