/-
NeuralHub.Lib.TextLines — lines of a text with their endings, and the line
ends that a file in text mode reads.

`linesOf brk` cuts a text into lines, each with the break that ends it; a
carriage return and a line feed behind it are one break. With two break
characters these are the lines of a file, with all of them those of
`str.splitlines`. `universalNewlines` is what reading in text mode makes
of the breaks.

The equations `linesOf_line` and `linesOf_last` and the induction
`lines_induction` say all that is used of `linesOf`. A line is plain if its
ending is a line feed or, as the last one, nothing: plain lines are cut
in the same way for every choice of breaks that are not in them
(`linesOf_render`).
-/
import Mathlib.Data.List.Basic
import Mathlib.Data.List.TakeWhile

namespace NeuralHub.Lib

universe u

structure Line (α : Type u) where
  content : List α
  ending : List α
  deriving DecidableEq, Repr

/-- The characters that break lines: those of a file, and others. -/
structure Breaks (α : Type u) where
  cr : α
  lf : α
  other : α → Bool
  cr_ne_lf : cr ≠ lf

variable {α : Type u}

def Line.text (line : Line α) : List α := line.content ++ line.ending

def render (lines : List (Line α)) : List α := lines.flatMap Line.text

@[simp] theorem render_nil : render ([] : List (Line α)) = [] := rfl

@[simp] theorem render_cons (line : Line α) (lines : List (Line α)) :
    render (line :: lines) = line.content ++ (line.ending ++ render lines) := by
  rw [render, List.flatMap_cons, Line.text, List.append_assoc, render]

@[simp] theorem render_append (xs ys : List (Line α)) :
    render (xs ++ ys) = render xs ++ render ys := List.flatMap_append

/-- The breaks of a file in text mode. -/
def Breaks.file (b : Breaks α) : Breaks α := { b with other := fun _ => false }

variable [DecidableEq α] (b : Breaks α)

def Breaks.brk (a : α) : Bool := a == b.cr || a == b.lf || b.other a

theorem Breaks.brk_cr : b.brk b.cr = true := by simp [brk]

theorem Breaks.brk_lf : b.brk b.lf = true := by simp [brk]

/-- No break in a text. -/
def Unbroken (s : List α) : Prop := ∀ a ∈ s, b.brk a = false

def linesOf : List α → List (Line α)
  | [] => []
  | a :: rest =>
    match linesOf rest with
    | [] => if b.brk a then [⟨[], [a]⟩] else [⟨[a], []⟩]
    | line :: lines =>
      if !b.brk a then ⟨a :: line.content, line.ending⟩ :: lines
      else if a = b.cr ∧ rest.head? = some b.lf then ⟨line.content, a :: line.ending⟩ :: lines
      else ⟨[], [a]⟩ :: line :: lines

/-- A break, as it stands in front of a text. -/
inductive Ending : List α → List α → Prop where
  | one {a : α} {s : List α} (ha : b.brk a = true) (hs : a = b.cr → s.head? ≠ some b.lf) :
      Ending [a] s
  | two {s : List α} : Ending [b.cr, b.lf] s

/-- What reading in text mode makes of a text. -/
def newlinesFrom (afterCr : Bool) : List α → List α
  | [] => []
  | a :: rest =>
    if a = b.cr then b.lf :: newlinesFrom true rest
    else if a = b.lf ∧ afterCr = true then newlinesFrom false rest
    else a :: newlinesFrom false rest

def universalNewlines (s : List α) : List α := newlinesFrom b false s

variable {b} {s t : List α}

/-! ## The equations of `linesOf` -/

@[simp] theorem linesOf_nil : linesOf b [] = [] := rfl

theorem linesOf_eq (a : α) (rest : List α) :
    linesOf b (a :: rest) =
      match linesOf b rest with
      | [] => if b.brk a then [⟨[], [a]⟩] else [⟨[a], []⟩]
      | line :: lines =>
        if !b.brk a then ⟨a :: line.content, line.ending⟩ :: lines
        else if a = b.cr ∧ rest.head? = some b.lf then ⟨line.content, a :: line.ending⟩ :: lines
        else ⟨[], [a]⟩ :: line :: lines := rfl

/-- A text that begins with a line feed. -/
theorem linesOf_lf (s : List α) : linesOf b (b.lf :: s) = ⟨[], [b.lf]⟩ :: linesOf b s := by
  rw [linesOf_eq]
  split
  · rename_i hnil
    rw [if_pos b.brk_lf, hnil]
  · rename_i line lines hlines
    rw [if_neg (by simp [b.brk_lf]), if_neg (fun h => b.cr_ne_lf h.1.symm), hlines]

theorem linesOf_ending (h : Ending b t s) : linesOf b (t ++ s) = ⟨[], t⟩ :: linesOf b s := by
  cases h with
  | @one a s ha hs =>
    rw [List.singleton_append, linesOf_eq]
    split
    · rename_i hnil
      rw [if_pos ha, hnil]
    · rename_i line lines hlines
      rw [if_neg (by simp [ha]), if_neg (fun h => hs h.1 h.2), hlines]
  | two =>
    rw [List.cons_append, List.singleton_append, linesOf_eq, linesOf_lf]
    simp [b.brk_cr]

theorem linesOf_cons {a : α} (ha : b.brk a = false) {line : Line α} {lines : List (Line α)}
    (h : linesOf b s = line :: lines) :
    linesOf b (a :: s) = ⟨a :: line.content, line.ending⟩ :: lines := by
  rw [linesOf_eq, h]
  simp [ha]

/-- A line with its ending. -/
theorem linesOf_line {content : List α} (hcontent : Unbroken b content) (h : Ending b t s) :
    linesOf b (content ++ (t ++ s)) = ⟨content, t⟩ :: linesOf b s := by
  induction content with
  | nil => exact linesOf_ending h
  | cons a content ih =>
    rw [List.cons_append]
    exact linesOf_cons (hcontent a List.mem_cons_self)
      (ih fun c hc => hcontent c (List.mem_cons_of_mem a hc))

/-- A last line without an ending. -/
theorem linesOf_last {content : List α} (hcontent : Unbroken b content) (hne : content ≠ []) :
    linesOf b content = [⟨content, []⟩] := by
  induction content with
  | nil => exact absurd rfl hne
  | cons a content ih =>
    have ha := hcontent a List.mem_cons_self
    cases content with
    | nil => simp [linesOf_eq, ha]
    | cons c content =>
      exact linesOf_cons ha (ih (fun d hd => hcontent d (List.mem_cons_of_mem a hd)) (by simp))

/-- Every text is empty, a last line, or a line in front of a text. -/
theorem lines_induction {motive : List α → Prop} (nil : motive [])
    (last : ∀ content, Unbroken b content → content ≠ [] → motive content)
    (line : ∀ content t s, Unbroken b content → Ending b t s → motive s →
      motive (content ++ (t ++ s))) : ∀ s, motive s := by
  intro s
  induction hn : s.length using Nat.strongRecOn generalizing s with
  | ind n ih =>
    have hsplit := List.takeWhile_append_dropWhile (p := fun a => !b.brk a) (l := s)
    have hcontent : Unbroken b (s.takeWhile fun a => !b.brk a) := by
      intro a ha
      simpa using List.mem_takeWhile_imp ha
    cases hrest : s.dropWhile fun a => !b.brk a with
    | nil =>
      rw [hrest, List.append_nil] at hsplit
      cases s with
      | nil => exact nil
      | cons a s => exact last (a :: s) (hsplit ▸ hcontent) (by simp)
    | cons a rest =>
      have ha : b.brk a = true := by
        have hhead := List.head?_dropWhile_not (fun a => !b.brk a) s
        rw [hrest] at hhead
        simpa using hhead
      have hlength := congrArg List.length hsplit
      rw [hrest, List.length_append, List.length_cons] at hlength
      rw [← hsplit, hrest]
      by_cases hpair : a = b.cr ∧ rest.head? = some b.lf
      · obtain ⟨rfl, hhead⟩ := hpair
        obtain ⟨tail, rfl⟩ : ∃ tail, rest = b.lf :: tail := List.head?_eq_some_iff.mp hhead
        rw [List.length_cons] at hlength
        exact line _ [b.cr, b.lf] tail hcontent .two (ih tail.length (by omega) tail rfl)
      · refine line _ [a] rest hcontent (.one ha fun h hlf => hpair ⟨h, hlf⟩) ?_
        exact ih rest.length (by omega) rest rfl

theorem render_linesOf (b : Breaks α) (s : List α) : render (linesOf b s) = s := by
  induction s using lines_induction (b := b) with
  | nil => rfl
  | last content hcontent hne => simp [linesOf_last hcontent hne]
  | line content t s hcontent ht ih => simp [linesOf_line hcontent ht, ih]

/-! ## Plain lines -/

/-- A line that ends with a line feed. -/
def Line.Feeds (b : Breaks α) (line : Line α) : Prop :=
  Unbroken b line.content ∧ line.ending = [b.lf]

theorem ending_lf (s : List α) : Ending b [b.lf] s :=
  .one b.brk_lf fun h => absurd h.symm b.cr_ne_lf

theorem linesOf_feeds_append {lines : List (Line α)} (h : ∀ line ∈ lines, line.Feeds b)
    (s : List α) : linesOf b (render lines ++ s) = lines ++ linesOf b s := by
  induction lines with
  | nil => rfl
  | cons line lines ih =>
    obtain ⟨hcontent, hending⟩ := h line List.mem_cons_self
    have htail := ih fun x hx => h x (List.mem_cons_of_mem line hx)
    rw [render_cons, hending, List.append_assoc, List.append_assoc,
      linesOf_line hcontent (ending_lf _), htail, ← hending]
    rfl

theorem Ending.ne_nil {e : List α} (h : Ending b e s) : e ≠ [] := by
  cases h <;> simp

/-- A break stands in front of more, unless a line feed could join it. -/
theorem Ending.append {e : List α} (h : Ending b e s)
    (hs : s ≠ [] ∨ e.getLast? = some b.lf) (t : List α) : Ending b e (s ++ t) := by
  cases h with
  | @one a s ha hhead =>
    refine .one ha fun hcr => ?_
    rcases hs with hne | hlast
    · cases s with
      | nil => exact absurd rfl hne
      | cons x s => exact hhead hcr
    · rw [List.getLast?_singleton] at hlast
      exact absurd (hcr.symm.trans (Option.some.inj hlast)) b.cr_ne_lf
  | two => exact .two

/-- A text that ends with a line feed is cut off from what follows. -/
theorem linesOf_append {s : List α} (h : s.getLast? = some b.lf) (t : List α) :
    linesOf b (s ++ t) = linesOf b s ++ linesOf b t := by
  induction s using lines_induction (b := b) with
  | nil => cases h
  | last content hcontent hne =>
    have hlf := hcontent _ (List.mem_of_getLast? h)
    rw [b.brk_lf] at hlf
    cases hlf
  | line content e s hcontent he ih =>
    rw [List.getLast?_append, List.getLast?_append] at h
    have hjoin : Ending b e (s ++ t) ∧ linesOf b (s ++ t) = linesOf b s ++ linesOf b t := by
      cases hlast : s.getLast? with
      | none =>
        obtain rfl : s = [] := List.getLast?_eq_none_iff.mp hlast
        obtain ⟨a, ha⟩ := Option.ne_none_iff_exists'.mp fun hnone =>
          he.ne_nil (List.getLast?_eq_none_iff.mp hnone)
        rw [hlast, ha] at h
        exact ⟨he.append (Or.inr (ha.trans h)) t, rfl⟩
      | some a =>
        rw [hlast] at h
        have hne : s ≠ [] := by
          rintro rfl
          cases hlast
        exact ⟨he.append (Or.inl hne) t, ih (hlast.trans h)⟩
    rw [List.append_assoc, List.append_assoc, linesOf_line hcontent hjoin.1, hjoin.2,
      linesOf_line hcontent he]
    rfl

/-- Every line but the last one has an ending. -/
theorem ending_ne_nil {s : List α} {xs ys : List (Line α)} (h : linesOf b s = xs ++ ys)
    (hys : ys ≠ []) : ∀ line ∈ xs, line.ending ≠ [] := by
  induction s using lines_induction (b := b) generalizing xs with
  | nil =>
    have hnil := List.append_eq_nil_iff.mp h.symm
    exact absurd hnil.2 hys
  | last content hcontent hne =>
    rw [linesOf_last hcontent hne] at h
    cases xs with
    | nil => exact fun _ hmem => absurd hmem List.not_mem_nil
    | cons x xs =>
      have htail := (List.append_eq_nil_iff.mp (List.cons.inj h).2.symm).2
      exact absurd htail hys
  | line content e s hcontent he ih =>
    rw [linesOf_line hcontent he] at h
    cases xs with
    | nil => exact fun _ hmem => absurd hmem List.not_mem_nil
    | cons x xs =>
      obtain ⟨rfl, hrest⟩ := List.cons.inj h
      intro line hline
      rcases List.mem_cons.mp hline with rfl | hline
      · exact he.ne_nil
      · exact ih hrest line hline

/-- A line has text. -/
theorem text_ne_nil {s : List α} : ∀ line ∈ linesOf b s, line.text ≠ [] := by
  induction s using lines_induction (b := b) with
  | nil => exact fun _ hmem => absurd hmem List.not_mem_nil
  | last content hcontent hne =>
    rw [linesOf_last hcontent hne]
    intro line hline
    rw [List.mem_singleton.mp hline]
    simpa [Line.text] using hne
  | line content e s hcontent he ih =>
    rw [linesOf_line hcontent he]
    intro line hline
    rcases List.mem_cons.mp hline with rfl | hline
    · simp [Line.text, he.ne_nil]
    · exact ih line hline

theorem unbroken_linesOf {s : List α} : ∀ line ∈ linesOf b s, Unbroken b line.content := by
  induction s using lines_induction (b := b) with
  | nil => exact fun _ hmem => absurd hmem List.not_mem_nil
  | last content hcontent hne =>
    rw [linesOf_last hcontent hne]
    intro line hline
    rw [List.mem_singleton.mp hline]
    exact hcontent
  | line content e s hcontent he ih =>
    rw [linesOf_line hcontent he]
    intro line hline
    rcases List.mem_cons.mp hline with rfl | hline
    · exact hcontent
    · exact ih line hline

/-! ## Reading in text mode -/

@[simp] theorem universalNewlines_nil : universalNewlines b [] = [] := rfl

theorem newlinesFrom_cons (afterCr : Bool) (a : α) (rest : List α) :
    newlinesFrom b afterCr (a :: rest) =
      if a = b.cr then b.lf :: newlinesFrom b true rest
      else if a = b.lf ∧ afterCr = true then newlinesFrom b false rest
      else a :: newlinesFrom b false rest := rfl

theorem newlinesFrom_afterCr {s : List α} (h : s.head? ≠ some b.lf) :
    newlinesFrom b true s = newlinesFrom b false s := by
  cases s with
  | nil => rfl
  | cons a s =>
    have ha : a ≠ b.lf := fun heq => h (congrArg some heq)
    simp [newlinesFrom_cons, ha]

theorem universalNewlines_unbroken {content : List α} (h : Unbroken b.file content)
    (s : List α) : universalNewlines b (content ++ s) = content ++ universalNewlines b s := by
  induction content with
  | nil => rfl
  | cons a content ih =>
    have ha := h a List.mem_cons_self
    simp only [Breaks.brk, Breaks.file, Bool.or_false, Bool.or_eq_false_iff,
      beq_eq_false_iff_ne] at ha
    have htail := ih fun c hc => h c (List.mem_cons_of_mem a hc)
    unfold universalNewlines at htail ⊢
    rw [List.cons_append, newlinesFrom_cons, if_neg ha.1, if_neg fun hlf => ha.2 hlf.1, htail]
    rfl

theorem universalNewlines_ending {e : List α} (h : Ending b.file e s) :
    universalNewlines b (e ++ s) = b.lf :: universalNewlines b s := by
  have hne : b.lf ≠ b.cr := fun h => b.cr_ne_lf h.symm
  cases h with
  | @one a s ha hs =>
    simp only [Breaks.brk, Breaks.file, Bool.or_false, Bool.or_eq_true, beq_iff_eq] at ha
    unfold universalNewlines
    rcases ha with rfl | rfl
    · rw [List.singleton_append, newlinesFrom_cons, if_pos rfl, newlinesFrom_afterCr (b := b) (hs rfl)]
    · rw [List.singleton_append, newlinesFrom_cons, if_neg hne, if_neg (by simp)]
  | two =>
    unfold universalNewlines
    simp [newlinesFrom_cons, Breaks.file, hne]

/-- Text mode turns every ending into a line feed. -/
def Line.feed (b : Breaks α) (line : Line α) : Line α :=
  ⟨line.content, if line.ending = [] then [] else [b.lf]⟩

theorem universalNewlines_eq_render (b : Breaks α) (s : List α) :
    universalNewlines b s = render ((linesOf b.file s).map (Line.feed b)) := by
  induction s using lines_induction (b := b.file) with
  | nil => rfl
  | last content hcontent hne =>
    have htext := universalNewlines_unbroken hcontent []
    rw [List.append_nil] at htext
    rw [htext, linesOf_last hcontent hne]
    simp [Line.feed]
  | line content e s hcontent he ih =>
    rw [universalNewlines_unbroken hcontent, universalNewlines_ending he, ih,
      linesOf_line hcontent he]
    simp [Line.feed, he.ne_nil]

/-- No carriage return is left. -/
theorem cr_not_mem_universalNewlines (b : Breaks α) (s : List α) :
    b.cr ∉ universalNewlines b s := by
  have hgo : ∀ afterCr, b.cr ∉ newlinesFrom b afterCr s := by
    induction s with
    | nil => exact fun _ => List.not_mem_nil
    | cons a s ih =>
      intro afterCr
      rw [newlinesFrom_cons]
      split
      · rw [List.mem_cons, not_or]
        exact ⟨b.cr_ne_lf, ih true⟩
      · rename_i ha
        split
        · exact ih false
        · rw [List.mem_cons, not_or]
          exact ⟨fun h => ha h.symm, ih false⟩
  exact hgo false

theorem mem_universalNewlines {s : List α} {a : α} (h : a ∈ universalNewlines b s) :
    a ∈ s ∨ a = b.lf := by
  have hgo : ∀ (s : List α) (afterCr : Bool), a ∈ newlinesFrom b afterCr s →
      a ∈ s ∨ a = b.lf := by
    intro s
    induction s with
    | nil => exact fun _ hmem => Or.inl hmem
    | cons x s ih =>
      intro afterCr hmem
      rw [newlinesFrom_cons] at hmem
      split at hmem
      · rcases List.mem_cons.mp hmem with rfl | hmem
        · exact Or.inr rfl
        · exact (ih true hmem).imp_left (List.mem_cons_of_mem x)
      · split at hmem
        · exact (ih false hmem).imp_left (List.mem_cons_of_mem x)
        · rcases List.mem_cons.mp hmem with rfl | hmem
          · exact Or.inl List.mem_cons_self
          · exact (ih false hmem).imp_left (List.mem_cons_of_mem x)
  exact hgo s false h

/-- Without carriage returns a text is read as it is. -/
theorem universalNewlines_eq_self {s : List α} (h : b.cr ∉ s) : universalNewlines b s = s := by
  unfold universalNewlines
  induction s with
  | nil => rfl
  | cons a s ih =>
    rw [List.mem_cons, not_or] at h
    rw [newlinesFrom_cons, if_neg fun heq => h.1 heq.symm, if_neg (by simp), ih h.2]

/-! ## Lines of lines -/

/-- A line that reading in text mode leaves as it is and no other break cuts. -/
def Line.Plain (b : Breaks α) (line : Line α) : Prop :=
  Unbroken b line.content ∧ (line.ending = [b.lf] ∨ line.ending = [])

instance (line : Line α) : Decidable (line.Plain b) :=
  inferInstanceAs (Decidable ((∀ a ∈ line.content, b.brk a = false) ∧ _))

theorem feed_plain {line : Line α} (h : line.Plain b) : line.feed b = line := by
  obtain ⟨content, ending⟩ := line
  rcases h.2 with hlf | hnil
  · simp_all [Line.feed]
  · simp_all [Line.feed]

/-- The last lines of a text, if they are plain, are cut out of it in the same way. -/
theorem linesOf_plain {s : List α} {xs ys : List (Line α)} (h : linesOf b.file s = xs ++ ys)
    (hplain : ∀ line ∈ ys, line.Plain b) : linesOf b (render ys) = ys := by
  induction ys generalizing xs with
  | nil => rfl
  | cons line ys ih =>
    obtain ⟨hcontent, hending⟩ := hplain line List.mem_cons_self
    have hsplit : linesOf b.file s = (xs ++ [line]) ++ ys := by
      rw [h, List.append_assoc, List.singleton_append]
    have htail := ih hsplit fun x hx => hplain x (List.mem_cons_of_mem line hx)
    rw [render_cons]
    rcases hending with hlf | hnil
    · rw [hlf, linesOf_line hcontent (ending_lf _), htail, ← hlf]
    · have hys : ys = [] := by
        by_contra hne
        exact ending_ne_nil hsplit hne line (by simp) hnil
      subst hys
      have htext := text_ne_nil (s := s) line (by rw [h]; simp)
      rw [Line.text, hnil, List.append_nil] at htext
      rw [hnil, render_nil, List.append_nil, List.append_nil, linesOf_last hcontent htext, ← hnil]

/-- No line is lost where more characters break lines. -/
theorem length_le_linesOf {lines : List (Line α)} (h : ∀ line ∈ lines, line.ending = [b.lf]) :
    lines.length ≤ (linesOf b (render lines)).length := by
  induction lines with
  | nil => exact Nat.zero_le _
  | cons line lines ih =>
    have htail := ih fun x hx => h x (List.mem_cons_of_mem line hx)
    have hlast : (line.content ++ [b.lf]).getLast? = some b.lf := List.getLast?_concat
    have hhead : linesOf b (line.content ++ [b.lf]) ≠ [] := by
      intro hnil
      have hrender := render_linesOf (b := b) (line.content ++ [b.lf])
      rw [hnil] at hrender
      simp at hrender
    rw [render_cons, h line List.mem_cons_self, ← List.append_assoc, linesOf_append hlast,
      List.length_append, List.length_cons]
    have hpos := List.length_pos_iff.mpr hhead
    omega

/-- Lines with the given contents, a line feed behind each, behind the last one if
`final`; a last line of nothing is none. -/
def lineUp (b : Breaks α) (final : Bool) : List (List α) → List (Line α)
  | [] => []
  | [c] => if final then [⟨c, [b.lf]⟩] else if c = [] then [] else [⟨c, []⟩]
  | c :: d :: rest => ⟨c, [b.lf]⟩ :: lineUp b final (d :: rest)

omit [DecidableEq α] in
@[simp] theorem lineUp_nil (final : Bool) : lineUp b final [] = [] := rfl

omit [DecidableEq α] in
theorem lineUp_singleton (final : Bool) (c : List α) :
    lineUp b final [c] = if final then [⟨c, [b.lf]⟩] else if c = [] then [] else [⟨c, []⟩] := rfl

omit [DecidableEq α] in
theorem lineUp_cons_cons (final : Bool) (c d : List α) (rest : List (List α)) :
    lineUp b final (c :: d :: rest) = ⟨c, [b.lf]⟩ :: lineUp b final (d :: rest) := rfl

omit [DecidableEq α] in
theorem lineUp_append (final : Bool) (xs : List (List α)) {ys : List (List α)} (hys : ys ≠ []) :
    lineUp b final (xs ++ ys) = xs.map (fun c => ⟨c, [b.lf]⟩) ++ lineUp b final ys := by
  induction xs with
  | nil => rfl
  | cons c xs ih =>
    obtain ⟨d, rest, hrest⟩ := List.exists_cons_of_ne_nil
      (List.append_ne_nil_of_right_ne_nil xs hys)
    rw [List.cons_append, hrest, lineUp_cons_cons, ← hrest, ih]
    rfl

omit [DecidableEq α] in
theorem lineUp_file (b : Breaks α) (final : Bool) (contents : List (List α)) :
    lineUp b.file final contents = lineUp b final contents := by
  induction contents with
  | nil => rfl
  | cons c rest ih =>
    cases rest with
    | nil => rfl
    | cons d rest =>
      rw [lineUp_cons_cons, lineUp_cons_cons, ih]
      rfl

theorem linesOf_joined (final : Bool) {contents : List (List α)}
    (h : ∀ c ∈ contents, Unbroken b c) :
    linesOf b ([b.lf].intercalate contents ++
      if final && !contents.isEmpty then [b.lf] else []) = lineUp b final contents := by
  induction contents with
  | nil => simp
  | cons c contents ih =>
    have hc := h c List.mem_cons_self
    have htail := ih fun x hx => h x (List.mem_cons_of_mem c hx)
    cases contents with
    | nil =>
      rw [List.intercalate_singleton, lineUp_singleton]
      cases final with
      | true =>
        have hone := linesOf_line hc (ending_lf (b := b) [])
        simpa using hone
      | false =>
        by_cases hnil : c = []
        · simp [hnil]
        · simpa [hnil] using linesOf_last hc hnil
    | cons d rest =>
      rw [List.intercalate_cons_cons, List.append_assoc, List.append_assoc,
        linesOf_line hc (ending_lf _), lineUp_cons_cons, ← htail]
      simp

omit [DecidableEq α] in
/-- The lines of a text are lined up again from their contents. -/
theorem lineUp_content {final : Bool} {lines : List (Line α)}
    (hlf : ∀ line ∈ lines.dropLast, line.ending = [b.lf])
    (hlast : ∀ line, lines.getLast? = some line →
      line.ending = if final then [b.lf] else [])
    (htext : ∀ line ∈ lines, line.text ≠ []) :
    lineUp b final (lines.map Line.content) = lines := by
  induction lines with
  | nil => rfl
  | cons line lines ih =>
    cases lines with
    | nil =>
      have hending := hlast line rfl
      have hne := htext line List.mem_cons_self
      obtain ⟨content, ending⟩ := line
      cases final <;> simp_all [lineUp_singleton, Line.text]
    | cons next lines =>
      have htail := ih (fun x hx => hlf x (by simpa using Or.inr hx))
        (fun x hx => hlast x (by simpa using hx))
        fun x hx => htext x (List.mem_cons_of_mem line hx)
      have hending := hlf line (by simp)
      rw [List.map_cons, List.map_cons, lineUp_cons_cons, ← List.map_cons, htail, ← hending]

theorem Unbroken.file {c : List α} (h : Unbroken b c) : Unbroken b.file c := by
  intro a ha
  have hbrk := h a ha
  rw [Breaks.brk, Bool.or_eq_false_iff] at hbrk
  rw [Breaks.brk, Bool.or_eq_false_iff]
  exact ⟨hbrk.1, rfl⟩

/-! ## The end of a text -/

/-- The text ends with the ending of a line. -/
def EndsLine (b : Breaks α) (s : List α) : Prop := s.getLast? = some b.cr ∨ s.getLast? = some b.lf

instance (s : List α) : Decidable (EndsLine b s) := inferInstanceAs (Decidable (_ ∨ _))

omit [DecidableEq α] in
theorem endsLine_append (xs : List α) {s : List α} (hs : s ≠ []) :
    EndsLine b (xs ++ s) ↔ EndsLine b s := by
  rw [EndsLine, EndsLine, List.getLast?_append_of_ne_nil _ hs]

theorem endsLine_ending {e s : List α} (h : Ending b.file e s) : EndsLine b e := by
  cases h with
  | @one a s ha _ =>
    simp only [Breaks.brk, Breaks.file, Bool.or_false, Bool.or_eq_true, beq_iff_eq] at ha
    exact ha.imp (congrArg some) (congrArg some)
  | two => exact Or.inr rfl

theorem endsLine_universalNewlines {s : List α} :
    EndsLine b (universalNewlines b s) ↔ EndsLine b s := by
  induction s using lines_induction (b := b.file) with
  | nil => exact Iff.rfl
  | last content hcontent hne =>
    have htext := universalNewlines_unbroken hcontent []
    rw [List.append_nil] at htext
    rw [htext]
    simp
  | line content e s hcontent he ih =>
    rw [universalNewlines_unbroken hcontent, universalNewlines_ending he]
    cases s with
    | nil =>
      have hleft : EndsLine b (content ++ b.lf :: universalNewlines b []) := by
        simp [EndsLine]
      have hright : EndsLine b (content ++ (e ++ [])) := by
        rw [List.append_nil]
        exact (endsLine_append content he.ne_nil).mpr (endsLine_ending he)
      exact iff_of_true hleft hright
    | cons a s =>
      have hne : universalNewlines b (a :: s) ≠ [] := by
        rw [universalNewlines, newlinesFrom_cons]
        split <;> simp
      rw [endsLine_append _ (by simp), ← List.singleton_append, endsLine_append _ hne, ih,
        ← List.append_assoc, endsLine_append _ (by simp)]

theorem Unbroken.not_endsLine {c : List α} (h : Unbroken b c) : ¬EndsLine b c := by
  rintro (hlast | hlast)
  · have hbrk := h _ (List.mem_of_getLast? hlast)
    rw [b.brk_cr] at hbrk
    cases hbrk
  · have hbrk := h _ (List.mem_of_getLast? hlast)
    rw [b.brk_lf] at hbrk
    cases hbrk

theorem endsLine_intercalate {contents : List (List α)} (h : ∀ c ∈ contents, Unbroken b c) :
    EndsLine b ([b.lf].intercalate contents) ↔
      contents.getLast? = some [] ∧ 1 < contents.length := by
  induction contents with
  | nil => simp [EndsLine]
  | cons c contents ih =>
    have hc := h c List.mem_cons_self
    have htail := ih fun x hx => h x (List.mem_cons_of_mem c hx)
    cases contents with
    | nil =>
      rw [List.intercalate_singleton]
      exact iff_of_false hc.not_endsLine fun hlen => by simpa using hlen.2
    | cons d rest =>
      rw [List.intercalate_cons_cons]
      by_cases hnil : [b.lf].intercalate (d :: rest) = []
      · obtain ⟨rfl, rfl⟩ : d = [] ∧ rest = [] := by
          cases rest with
          | nil => exact ⟨by simpa using hnil, rfl⟩
          | cons e rest =>
            rw [List.intercalate_cons_cons] at hnil
            simp at hnil
        simp [EndsLine]
      · rw [endsLine_append _ hnil, htail]
        cases rest with
        | nil =>
          have hd : d ≠ [] := by simpa using hnil
          simp [hd]
        | cons e rest => simp

theorem endsLine_joined (final : Bool) {contents : List (List α)}
    (h : ∀ c ∈ contents, Unbroken b c) :
    EndsLine b ([b.lf].intercalate contents ++
      if final && !contents.isEmpty then [b.lf] else []) ↔
      if final then contents ≠ [] else contents.getLast? = some [] ∧ 1 < contents.length := by
  cases final with
  | true =>
    cases contents with
    | nil => simp [EndsLine]
    | cons c contents => simp [EndsLine]
  | false => simpa using endsLine_intercalate h

end NeuralHub.Lib
