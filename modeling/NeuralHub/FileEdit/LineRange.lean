/-
NeuralHub.FileEdit.LineRange — when `file_edit` leaves the lines outside the
given range alone.

`keepsOthers_iff`: an accepted range is edited without touching anything else
exactly if the new text can be encoded, every line outside the range ends in
a line feed (or is the last one) and holds no other line boundary, and
nothing goes wrong at the end of the file.

The tool splits with `str.splitlines`, so a form feed inside a line counts
as a line end and is written back as a line feed, and carriage returns are
dropped as in `StrReplace`. The lines of the result are those of
`lineUp` (`textLines_edited`); the lines in front of the range are found at
the head of the tool's lines (`front`) and those behind it at their end
(`back`).
-/
import NeuralHub.FileEdit.StrReplace

namespace NeuralHub.FileEdit

open Lib

/-- The lines of a file in text mode, with their endings. -/
def textLines (file : List Char) : List (Line CodePoint) := linesOf breaks.file (decode file)

/-- The lines that the tool counts. -/
def toolLines (file : List Char) : List Str :=
  splitlines (universalNewlines breaks (decode file))

/-- A call that fails leaves the file, and one that succeeds leaves the lines
before and after the range with their endings, and the file's last line
ended or not. -/
def KeepsOthers (path : String) (file : List Char) (range : Option (Int × Int))
    (newContent : Str) : Prop :=
  let out := fileEdit path (.text file) range newContent
  (out.reply.isError = true → out.file = .text file) ∧
    ∀ start stop, range = some (start, stop) → out.reply.isError = false →
      ∃ edited, out.file = .text edited ∧
        (textLines edited).take (start.toNat - 1) = (textLines file).take (start.toNat - 1) ∧
        (textLines file).drop stop.toNat <:+ textLines edited ∧
        (EndsLine breaks (decode edited) ↔ EndsLine breaks (decode file))

/-- A range that the tool accepts. -/
def Accepted (path : String) (file : List Char) (start stop : Int) : Prop :=
  isSafePath path = true ∧ 1 ≤ start ∧ start ≤ stop ∧ stop ≤ (toolLines file).length

instance (path : String) (file : List Char) (start stop : Int) :
    Decidable (Accepted path file start stop) :=
  inferInstanceAs (Decidable (_ ∧ _ ∧ _ ∧ _))

/-- The lines kept and put in their place: the first `k`, the new ones and
those from `stop` on. -/
def newLines (file : List Char) (k stop : Nat) (newContent : Str) : List Str :=
  (toolLines file).take k ++ splitlines newContent ++ (toolLines file).drop stop

/-- The end of the file stays as it is: of a file whose last line is ended
something is left; a file whose last line is not ended gets no empty line as
the last of several, and does not lose its end to nothing. -/
def EndKept (file : List Char) (k stop : Nat) (newContent : Str) : Prop :=
  if EndsLine breaks (decode file) then newLines file k stop newContent ≠ []
  else
    ¬((newLines file k stop newContent).getLast? = some [] ∧
        1 < (newLines file k stop newContent).length) ∧
      ¬(0 < k ∧ splitlines newContent = [] ∧ stop = (toolLines file).length)

instance (file : List Char) (k stop : Nat) (newContent : Str) :
    Decidable (EndKept file k stop newContent) :=
  inferInstanceAs (Decidable (if EndsLine breaks (decode file) then
    newLines file k stop newContent ≠ []
    else ¬(_ ∧ _) ∧ ¬(_ ∧ _ ∧ _)))

/-- What the tool can edit without touching the rest. -/
structure Keepable (file : List Char) (k stop : Nat) (newContent : Str) : Prop where
  writable : (encode newContent).isSome = true
  front : ∀ line ∈ (textLines file).take k, line.Plain breaks
  back : ∀ line ∈ (textLines file).drop stop, line.Plain breaks
  endKept : EndKept file k stop newContent

variable {path : String} {file : List Char} {newContent : Str} {k stop : Nat}

/-! ## What can be written -/

theorem isSome_encode_iff {s : Str} : (encode s).isSome = true ↔ ∀ code, .half code ∉ s := by
  induction s with
  | nil => simp [encode]
  | cons a s ih =>
    cases a with
    | char c => simpa [encode] using ih
    | half code =>
      refine iff_of_false (by simp [encode]) fun h => h code List.mem_cons_self

/-- Halves of pairs break no line. -/
theorem half_mem_splitlines {s : Str} {code : Fin 2048} :
    (∃ line ∈ splitlines s, .half code ∈ line) ↔ .half code ∈ s := by
  induction s using lines_induction (b := breaks) with
  | nil => simp [splitlines]
  | last content hcontent hne => simp [splitlines, linesOf_last hcontent hne]
  | line content t s hcontent ht ih =>
    have hbreak : .half code ∉ t := by
      intro hmem
      cases ht with
      | one ha _ =>
        rw [← List.mem_singleton.mp hmem] at ha
        cases ha
      | two => cases hmem with | tail _ hmem => cases hmem with | tail _ hmem => cases hmem
    rw [List.mem_append, List.mem_append, ← ih]
    simp [splitlines, linesOf_line hcontent ht, hbreak]

theorem half_mem_joinLines {final : Bool} {lines : List Str} {code : Fin 2048} :
    .half code ∈ joinLines [.char '\n'] final lines ↔ ∃ line ∈ lines, .half code ∈ line := by
  have hend : .half code ∉ (if final && !lines.isEmpty then [CodePoint.char '\n'] else []) := by
    split <;> simp
  rw [joinLines, List.mem_append, or_iff_left hend]
  clear hend
  induction lines with
  | nil => simp
  | cons line lines ih =>
    cases lines with
    | nil => simp
    | cons next rest =>
      rw [List.intercalate_cons_cons, List.mem_append, List.mem_append]
      simp [ih]

theorem isSome_encode_newLines (file : List Char) (k stop : Nat) (newContent : Str)
    (final : Bool) :
    (encode (joinLines [.char '\n'] final (newLines file k stop newContent))).isSome =
      (encode newContent).isSome := by
  have htool : ∀ line ∈ toolLines file, ∀ code, .half code ∉ line := by
    intro line hline code hmem
    have hread := half_mem_splitlines.mp ⟨line, hline, hmem⟩
    rcases mem_universalNewlines hread with hfile | hlf
    · obtain ⟨c, -, hc⟩ := List.mem_map.mp hfile
      cases hc
    · cases hlf
  rw [Bool.eq_iff_iff, isSome_encode_iff, isSome_encode_iff]
  refine forall_congr' fun code => not_congr ?_
  rw [half_mem_joinLines, ← half_mem_splitlines]
  constructor
  · rintro ⟨line, hline, hmem⟩
    rcases List.mem_append.mp hline with hleft | hback
    · rcases List.mem_append.mp hleft with hfront | hnew
      · exact absurd hmem (htool line (List.mem_of_mem_take hfront) code)
      · exact ⟨line, hnew, hmem⟩
    · exact absurd hmem (htool line (List.mem_of_mem_drop hback) code)
  · rintro ⟨line, hline, hmem⟩
    exact ⟨line, List.mem_append_left _ (List.mem_append_right _ hline), hmem⟩

/-! ## The two sides of the range -/

theorem unbroken_splitlines {s : Str} : ∀ line ∈ splitlines s, Unbroken breaks line := by
  intro line hline
  obtain ⟨whole, hwhole, rfl⟩ := List.mem_map.mp hline
  exact unbroken_linesOf whole hwhole

theorem unbroken_newLines (file : List Char) (k stop : Nat) (newContent : Str) :
    ∀ line ∈ newLines file k stop newContent, Unbroken breaks line := by
  intro line hline
  rcases List.mem_append.mp hline with hleft | hback
  · rcases List.mem_append.mp hleft with hfront | hnew
    · exact unbroken_splitlines line (List.mem_of_mem_take hfront)
    · exact unbroken_splitlines line hnew
  · exact unbroken_splitlines line (List.mem_of_mem_drop hback)

/-- The tool splits what is read of the lines in text mode. -/
theorem toolLines_eq (file : List Char) :
    toolLines file =
      (linesOf breaks (render ((textLines file).map (Line.feed breaks)))).map Line.content := by
  rw [toolLines, universalNewlines_eq_render, splitlines, textLines]

theorem map_feed {lines : List (Line CodePoint)} (h : ∀ line ∈ lines, line.Plain breaks) :
    lines.map (Line.feed breaks) = lines :=
  (List.map_congr_left fun line hline => feed_plain (h line hline)).trans (List.map_id lines)

/-- Plain lines in front of the range are followed by others, and are the first
lines of the tool. -/
theorem front (hk : k < (toolLines file).length)
    (hplain : ∀ line ∈ (textLines file).take k, line.Plain breaks) :
    (∀ line ∈ (textLines file).take k, line.ending = [.char '\n']) ∧
      ((textLines file).take k).length = k ∧
      (toolLines file).take k = ((textLines file).take k).map Line.content := by
  have hsplit := List.take_append_drop k (textLines file)
  have hmore : k < (textLines file).length := by
    by_contra hle
    rw [List.take_of_length_le (by omega)] at hplain
    have hsame : linesOf breaks (render (textLines file)) = textLines file :=
      linesOf_plain (s := decode file) (List.nil_append _).symm hplain
    rw [toolLines_eq, map_feed hplain, hsame, List.length_map] at hk
    omega
  have hended := ending_ne_nil hsplit.symm (List.ne_nil_of_length_pos (by simp; omega))
  have hlf : ∀ line ∈ (textLines file).take k, line.ending = [.char '\n'] := fun line hline =>
    (hplain line hline).2.resolve_right (hended line hline)
  have hlength : ((textLines file).take k).length = k := by
    rw [List.length_take]
    omega
  refine ⟨hlf, hlength, ?_⟩
  have hfeeds : ∀ line ∈ (textLines file).take k, line.Feeds breaks :=
    fun line hline => ⟨(hplain line hline).1, hlf line hline⟩
  rw [toolLines_eq, ← hsplit, List.map_append, map_feed hplain, render_append,
    linesOf_feeds_append hfeeds, List.map_append, hsplit]
  exact List.take_left' (by rw [List.length_map, hlength])

/-- Plain lines behind the range are the last lines of the tool, all of them
behind the range. -/
theorem back (hstop : 0 < stop)
    (hplain : ∀ line ∈ (textLines file).drop stop, line.Plain breaks) :
    ((textLines file).drop stop).map Line.content <:+ (toolLines file).drop stop := by
  by_cases hne : (textLines file).drop stop = []
  · rw [hne]
    exact List.nil_suffix
  have hsplit := List.take_append_drop stop (textLines file)
  have hmore : stop < (textLines file).length := by
    by_contra hle
    exact hne (List.drop_eq_nil_of_le (by omega))
  have hended := ending_ne_nil hsplit.symm hne
  have hfront : ∀ line ∈ ((textLines file).take stop).map (Line.feed breaks),
      line.ending = [breaks.lf] := by
    intro line hline
    obtain ⟨whole, hwhole, rfl⟩ := List.mem_map.mp hline
    exact if_neg (hended whole hwhole)
  have hlast : (render (((textLines file).take stop).map (Line.feed breaks))).getLast? =
      some breaks.lf := by
    obtain ⟨init, last, hinit⟩ := List.eq_nil_or_concat _ |>.resolve_left
      (show ((textLines file).take stop).map (Line.feed breaks) ≠ [] from
        List.ne_nil_of_length_pos (by simp; omega))
    have hending := hfront last (by simp [hinit])
    rw [hinit, List.concat_eq_append, render_append]
    simp [hending]
  have hlength := length_le_linesOf hfront
  rw [List.length_map, List.length_take, Nat.min_eq_left (by omega)] at hlength
  rw [toolLines_eq, ← hsplit, List.map_append, map_feed hplain, render_append,
    linesOf_append hlast, linesOf_plain hsplit.symm hplain, List.map_append, hsplit,
    List.drop_append_of_le_length (by rw [List.length_map]; exact hlength)]
  exact List.suffix_append _ _

/-! ## The result -/

/-- Plain lines are lined up again from their contents. -/
theorem lineUp_front {lines : List (Line CodePoint)}
    (h : ∀ line ∈ lines, line.ending = [.char '\n']) :
    (lines.map Line.content).map (fun c => (⟨c, [breaks.lf]⟩ : Line CodePoint)) = lines := by
  rw [List.map_map]
  refine (List.map_congr_left fun line hline => ?_).trans (List.map_id lines)
  rw [Function.comp_apply, show [breaks.lf] = line.ending from (h line hline).symm]
  rfl

/-- What the tool does with a range that it accepts. -/
theorem fileEdit_accepted {start stop : Int} (newContent : Str)
    (h : Accepted path file start stop) :
    fileEdit path (.text file) (some (start, stop)) newContent =
      writeText (joinLines [.char '\n'] (decide (EndsLine breaks (decode file)))
        (newLines file (start.toNat - 1) stop.toNat newContent)) (.edited start stop) := by
  obtain ⟨hpath, hstart, hle, hstop⟩ := h
  have hrange : ¬(start < 1 ∨ stop < start ∨ ((toolLines file).length : Int) < stop) := by omega
  -- there is no carriage return to guess a terminator from
  have hnewline :
      positions [.char '\r', .char '\n'] (universalNewlines breaks (decode file)) = [] := by
    refine List.eq_nil_iff_forall_not_mem.mpr fun i hi => ?_
    have hfound := (mem_positions (by simp)).mp hi
    exact cr_not_mem_universalNewlines breaks (decode file)
      (List.mem_of_mem_drop (hfound.subset List.mem_cons_self))
  have hfinal : ((universalNewlines breaks (decode file)).getLast? == some (.char '\n') ||
      (universalNewlines breaks (decode file)).getLast? == some (.char '\r')) =
        decide (EndsLine breaks (decode file)) := by
    rw [Bool.eq_iff_iff, decide_eq_true_iff, ← endsLine_universalNewlines, EndsLine, Or.comm]
    simp [breaks]
  rw [fileEdit, hpath, if_neg (by simp)]
  dsimp only
  rw [show splitlines (universalNewlines breaks (decode file)) = toolLines file from rfl,
    if_neg hrange, hnewline, if_neg (by simp), hfinal]
  rfl

theorem fileEdit_rejected {range : Option (Int × Int)} (newContent : Str)
    (h : ∀ start stop, range = some (start, stop) → ¬Accepted path file start stop) :
    (fileEdit path (.text file) range newContent).reply.isError = true ∧
      (fileEdit path (.text file) range newContent).file = .text file := by
  cases range with
  | none =>
    rw [fileEdit]
    split <;> exact ⟨rfl, rfl⟩
  | some range =>
    obtain ⟨start, stop⟩ := range
    have hnot := h start stop rfl
    rw [fileEdit]
    split
    · exact ⟨rfl, rfl⟩
    · rename_i hpath
      have hrange : start < 1 ∨ stop < start ∨ ((toolLines file).length : Int) < stop := by
        by_contra hin
        exact hnot ⟨by simpa using hpath, by omega, by omega, by omega⟩
      dsimp only
      rw [show splitlines (universalNewlines breaks (decode file)) = toolLines file from rfl,
        if_pos hrange]
      exact ⟨rfl, rfl⟩

/-- The lines of the file that is written. -/
theorem textLines_edited {final : Bool} {edited : List Char}
    (h : encode (joinLines [.char '\n'] final (newLines file k stop newContent)) = some edited) :
    textLines edited = lineUp breaks final (newLines file k stop newContent) := by
  rw [textLines, decode_of_encode h, joinLines]
  exact (linesOf_joined final fun line hline =>
    (unbroken_newLines file k stop newContent line hline).file).trans (lineUp_file breaks final _)

theorem endsLine_edited {edited : List Char} {final : Bool}
    (h : encode (joinLines [.char '\n'] final (newLines file k stop newContent)) = some edited) :
    EndsLine breaks (decode edited) ↔
      if final then newLines file k stop newContent ≠ []
      else (newLines file k stop newContent).getLast? = some [] ∧
        1 < (newLines file k stop newContent).length := by
  rw [decode_of_encode h, joinLines]
  exact endsLine_joined final (unbroken_newLines file k stop newContent)

/-- A file ends with the ending of its last line. -/
theorem endsLine_last {xs : List (Line CodePoint)} {last : Line CodePoint}
    (h : textLines file = xs ++ [last]) (hplain : last.Plain breaks) :
    EndsLine breaks (decode file) ↔ last.ending = [.char '\n'] := by
  have htext : last.text ≠ [] := text_ne_nil (s := decode file) last (by
    rw [← textLines, h]
    simp)
  have hfile := render_linesOf breaks.file (decode file)
  rw [← textLines, h, render_append, render_cons, render_nil, List.append_nil,
    ← Line.text] at hfile
  rw [← hfile, endsLine_append _ htext, Line.text]
  rcases hplain.2 with hlf | hnil
  · rw [hlf]
    exact iff_of_true ((endsLine_append _ (by simp)).mpr (Or.inr rfl)) rfl
  · rw [hnil, List.append_nil]
    exact iff_of_false hplain.1.not_endsLine (by simp)

/-! ## What is kept -/

/-- The lines in front of the range are the first ones of the result. -/
theorem take_lineUp {final : Bool} (hk : k < stop) (hstop : stop ≤ (toolLines file).length)
    (hplain : ∀ line ∈ (textLines file).take k, line.Plain breaks)
    (hend : final = true ∨ ¬(0 < k ∧ splitlines newContent = [] ∧ stop = (toolLines file).length)) :
    (lineUp breaks final (newLines file k stop newContent)).take k = (textLines file).take k := by
  obtain ⟨hlf, hlength, hcontent⟩ := front (by omega) hplain
  rw [newLines, hcontent, List.append_assoc]
  by_cases hrest : splitlines newContent ++ (toolLines file).drop stop = []
  · obtain ⟨hnew, hdrop⟩ := List.append_eq_nil_iff.mp hrest
    have hall : stop = (toolLines file).length := by
      have hle := List.drop_eq_nil_iff.mp hdrop
      omega
    rw [hrest, List.append_nil]
    rcases hend with rfl | hend
    · have hline : ∀ line ∈ (textLines file).take k, line.text ≠ [] := by
        intro line hline
        rw [Line.text, hlf line hline]
        simp
      rw [lineUp_content (fun line hline => hlf line (List.dropLast_subset _ hline))
        (fun line hline => (hlf line (List.mem_of_getLast? hline)).trans (if_pos rfl).symm)
        hline, List.take_take,
        Nat.min_self]
    · have hzero : k = 0 := by
        by_contra hpos
        exact hend ⟨by omega, hnew, hall⟩
      rw [hzero, List.take_zero, List.take_zero]
  · rw [lineUp_append _ _ hrest, lineUp_front hlf]
    exact List.take_left' hlength

/-- The lines behind the range are the last ones of the result. -/
theorem drop_lineUp (hstop : 0 < stop)
    (hplain : ∀ line ∈ (textLines file).drop stop, line.Plain breaks) :
    (textLines file).drop stop <:+ lineUp breaks (decide (EndsLine breaks (decode file)))
      (newLines file k stop newContent) := by
  by_cases hne : (textLines file).drop stop = []
  · rw [hne]
    exact List.nil_suffix
  have hsplit := List.take_append_drop stop (textLines file)
  obtain ⟨between, hbetween⟩ := back hstop hplain
  rw [newLines, ← hbetween, ← List.append_assoc, lineUp_append _ _ (by simpa using hne)]
  have hended : ∀ line ∈ ((textLines file).drop stop).dropLast, line.ending = [breaks.lf] := by
    intro line hline
    have hlast : (textLines file).take stop ++ ((textLines file).drop stop).dropLast ++
        [((textLines file).drop stop).getLast hne] = textLines file := by
      rw [List.append_assoc, List.dropLast_append_getLast, hsplit]
    have hending := ending_ne_nil hlast.symm (by simp) line (List.mem_append_right _ hline)
    exact (hplain line (List.dropLast_subset _ hline)).2.resolve_right hending
  have hlast : ∀ line, ((textLines file).drop stop).getLast? = some line →
      line.ending = if decide (EndsLine breaks (decode file)) then [breaks.lf] else [] := by
    intro line hline
    obtain ⟨init, hinit⟩ := List.getLast?_eq_some_iff.mp hline
    have hfile : textLines file = ((textLines file).take stop ++ init) ++ [line] := by
      rw [List.append_assoc, ← hinit, hsplit]
    have hmem := hplain line (List.mem_of_getLast? hline)
    have hiff := endsLine_last hfile hmem
    rcases hmem.2 with hlf | hnil
    · rw [decide_eq_true (hiff.mpr hlf)]
      exact hlf
    · rw [decide_eq_false fun h => by simp [hiff.mp h] at hnil]
      exact hnil
  have htext : ∀ line ∈ (textLines file).drop stop, line.text ≠ [] := fun line hline =>
    text_ne_nil (s := decode file) line (List.mem_of_mem_drop hline)
  rw [lineUp_content hended hlast htext]
  exact List.suffix_append _ _

/-- Lines that are lined up are plain. -/
theorem plain_lineUp (final : Bool) {contents : List Str}
    (h : ∀ c ∈ contents, Unbroken breaks c) :
    ∀ line ∈ lineUp breaks final contents, line.Plain breaks := by
  induction contents with
  | nil => exact fun _ hmem => absurd hmem List.not_mem_nil
  | cons c contents ih =>
    have hc := h c List.mem_cons_self
    intro line hline
    cases contents with
    | nil =>
      rw [lineUp] at hline
      split at hline
      · rw [List.mem_singleton.mp hline]
        exact ⟨hc, Or.inl rfl⟩
      · split at hline
        · cases hline
        · rw [List.mem_singleton.mp hline]
          exact ⟨hc, Or.inr rfl⟩
    | cons d rest =>
      rw [lineUp, List.mem_cons] at hline
      rcases hline with rfl | hline
      · exact ⟨hc, Or.inl rfl⟩
      · exact ih (fun x hx => h x (List.mem_cons_of_mem c hx)) line hline

/-- Where the first lines are kept, they do not end the file without their ending. -/
theorem not_bare_of_take (hk : k < stop)
    (hplain : ∀ line ∈ (textLines file).take k, line.Plain breaks)
    (htake : (lineUp breaks false (newLines file k stop newContent)).take k =
      (textLines file).take k) :
    ¬(0 < k ∧ splitlines newContent = [] ∧ stop = (toolLines file).length) := by
  rintro ⟨hpos, hnew, hall⟩
  obtain ⟨hlf, hlength, hcontent⟩ := front (by omega) hplain
  rw [newLines, hcontent, hnew, hall, List.drop_length, List.append_nil, List.append_nil] at htake
  obtain hnil | ⟨init, last, hinit⟩ := List.eq_nil_or_concat ((textLines file).take k)
  · rw [hnil, List.length_nil] at hlength
    omega
  rw [List.concat_eq_append] at hinit
  rw [hinit] at hlf hlength htake
  rw [List.map_append, List.map_singleton, lineUp_append _ _ (by simp),
    lineUp_front fun line hline => hlf line (List.mem_append_left _ hline)] at htake
  -- the last of these lines stands without an ending, or not at all
  have hbare : ∀ line ∈ lineUp breaks false [last.content], line.ending = [] := by
    intro line hline
    rw [lineUp, if_neg (by simp)] at hline
    split at hline
    · cases hline
    · rw [List.mem_singleton.mp hline]
  rw [List.length_append, List.length_singleton] at hlength
  rw [List.take_append, List.take_of_length_le (by omega)] at htake
  have hlast := List.append_cancel_left htake
  have hmem : last ∈ lineUp breaks false [last.content] :=
    List.mem_of_mem_take (i := k - init.length) (by rw [hlast]; exact List.mem_singleton_self last)
  have hending := hlf last (List.mem_append_right _ (List.mem_singleton_self last))
  rw [hbare last hmem] at hending
  cases hending

/-- A range that the tool accepts. -/
theorem keepsOthers_accepted {start stop : Int} (h : Accepted path file start stop) :
    KeepsOthers path file (some (start, stop)) newContent ↔
      Keepable file (start.toNat - 1) stop.toNat newContent := by
  have hcall := fileEdit_accepted newContent h
  obtain ⟨-, hstart, hle, hlines⟩ := h
  have hk : start.toNat - 1 < stop.toNat := by omega
  have hstop : stop.toNat ≤ (toolLines file).length := by omega
  have hencode := isSome_encode_newLines file (start.toNat - 1) stop.toNat newContent
    (decide (EndsLine breaks (decode file)))
  cases hwritten : encode (joinLines [.char '\n'] (decide (EndsLine breaks (decode file)))
      (newLines file (start.toNat - 1) stop.toNat newContent)) with
  | none =>
    rw [hwritten] at hencode
    rw [writeText, hwritten] at hcall
    refine iff_of_false ?_ fun hkeep => by simp [hkeep.writable] at hencode
    intro hright
    rw [KeepsOthers, hcall] at hright
    -- the file is emptied, and no range of an empty file is accepted
    cases hright.1 rfl
    rw [show toolLines [] = [] from rfl, List.length_nil] at hstop
    omega
  | some edited =>
    rw [hwritten] at hencode
    rw [writeText, hwritten] at hcall
    have hedited := textLines_edited hwritten
    have hends := endsLine_edited hwritten
    constructor
    · intro hright
      rw [KeepsOthers, hcall] at hright
      obtain ⟨other, hother, htake, hdrop, hend⟩ := hright.2 start stop rfl rfl
      cases hother
      rw [hedited] at htake hdrop
      have hplain := plain_lineUp (decide (EndsLine breaks (decode file)))
        (unbroken_newLines file (start.toNat - 1) stop.toNat newContent)
      have hfront : ∀ line ∈ (textLines file).take (start.toNat - 1), line.Plain breaks := by
        intro line hline
        rw [← htake] at hline
        exact hplain line (List.mem_of_mem_take hline)
      refine ⟨hencode.symm, hfront, fun line hline => hplain line (hdrop.subset hline), ?_⟩
      rw [EndKept]
      split
      · rename_i hfile
        rw [hends, decide_eq_true hfile, if_pos rfl] at hend
        exact hend.mpr hfile
      · rename_i hfile
        rw [hends, decide_eq_false hfile, if_neg (by simp)] at hend
        rw [decide_eq_false hfile] at htake
        exact ⟨fun hblank => hfile (hend.mp hblank), not_bare_of_take hk hfront htake⟩
    · intro hkeep
      rw [KeepsOthers, hcall]
      refine ⟨(fun hfalse => by cases hfalse), fun _ _ hrange _ => ?_⟩
      cases hrange
      have hendKept := hkeep.endKept
      rw [EndKept] at hendKept
      refine ⟨edited, rfl, ?_, ?_, ?_⟩
      · rw [hedited]
        refine take_lineUp hk hstop hkeep.front ?_
        split at hendKept
        · rename_i hfile
          exact Or.inl (decide_eq_true hfile)
        · exact Or.inr hendKept.2
      · rw [hedited]
        exact drop_lineUp (by omega) hkeep.back
      · rw [hends]
        split at hendKept
        · rename_i hfile
          rw [decide_eq_true hfile, if_pos rfl]
          exact iff_of_true hendKept hfile
        · rename_i hfile
          rw [decide_eq_false hfile, if_neg (by simp)]
          exact iff_of_false hendKept.1 hfile

/-- **When only the given lines change.** -/
theorem keepsOthers_iff {range : Option (Int × Int)} :
    KeepsOthers path file range newContent ↔
      ∀ start stop, range = some (start, stop) → Accepted path file start stop →
        Keepable file (start.toNat - 1) stop.toNat newContent := by
  by_cases haccepted : ∃ start stop, range = some (start, stop) ∧ Accepted path file start stop
  · obtain ⟨start, stop, rfl, haccepted⟩ := haccepted
    rw [keepsOthers_accepted haccepted]
    refine ⟨fun hkeep _ _ hrange _ => ?_, fun h => h start stop rfl haccepted⟩
    cases hrange
    exact hkeep
  · have hrejected : ∀ start stop, range = some (start, stop) → ¬Accepted path file start stop :=
      fun start stop hrange h => haccepted ⟨start, stop, hrange, h⟩
    obtain ⟨herror, hfile⟩ := fileEdit_rejected newContent hrejected
    refine iff_of_true ?_ fun start stop hrange h => absurd h (hrejected start stop hrange)
    rw [KeepsOthers, herror, hfile]
    exact ⟨fun _ => rfl, fun _ _ _ hfalse => by cases hfalse⟩

/-- The second line of a file with a form feed in the first one is the rest of
that line; carriage returns are dropped; and the last line of a file
without a final line feed takes the line feed before it along. -/
theorem not_always_keepsOthers :
    ¬KeepsOthers "a.txt" "a\x0cb\nc\n".toList (some (2, 2)) (decode "x".toList) ∧
      ¬KeepsOthers "a.txt" "a\r\nb\r\nc\r\n".toList (some (2, 2)) (decode "x".toList) ∧
      ¬KeepsOthers "a.txt" "a\nb".toList (some (2, 2)) [] := by
  refine ⟨?_, ?_, ?_⟩
  · rw [keepsOthers_accepted (by decide +kernel)]
    exact fun hkeep => absurd hkeep.front (by decide +kernel)
  · rw [keepsOthers_accepted (by decide +kernel)]
    exact fun hkeep => absurd hkeep.front (by decide +kernel)
  · rw [keepsOthers_accepted (by decide +kernel)]
    exact fun hkeep => absurd hkeep.endKept (by decide +kernel)

end NeuralHub.FileEdit
