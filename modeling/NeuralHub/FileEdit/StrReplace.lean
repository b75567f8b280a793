/-
NeuralHub.FileEdit.StrReplace — when `str_replace` edits exactly what it
was asked to edit.

`edits_exactly_iff`: if the file has no carriage return and the new text
can be encoded, the tool is right unless the old text is found once while
another occurrence overlaps it, since only separate occurrences are
counted. Otherwise a tool that finds the old text once spoils the file, and
the result is right only where it finds it not exactly once and the old
text does not stand in exactly one place of the file either.

Reading drops the carriage returns of the whole file and writing does not
put them back (`cr_count_replaced`); a text that cannot be encoded is
noticed after the file was truncated.
-/
import NeuralHub.FileEdit.Tools

namespace NeuralHub.FileEdit

open Lib

/-- The tool succeeds exactly if the old text stands in one place, replaces
it there and nothing else, and otherwise leaves the file as it is. -/
def EditsExactly (path : String) (file : List Char) (oldStr newStr : Str) : Prop :=
  let out := strReplace path (.text file) oldStr newStr
  (out.reply.isError = false ↔ ∃! i, oldStr <+: (decode file).drop i) ∧
    (∀ i, out.reply.isError = false → oldStr <+: (decode file).drop i →
      ∃ edited, out.file = .text edited ∧ decode edited =
        (decode file).take i ++ newStr ++ (decode file).drop (i + oldStr.length)) ∧
    (out.reply.isError = true → out.file = .text file)

/-- Found once by the tool. -/
def FoundOnce (file : List Char) (oldStr : Str) : Prop :=
  (matchOffsets oldStr (universalNewlines breaks (decode file))).length = 1

instance (file : List Char) (oldStr : Str) : Decidable (FoundOnce file oldStr) :=
  inferInstanceAs (Decidable (_ = _))

/-- In one place of the file. -/
def InOnePlace (file : List Char) (oldStr : Str) : Prop :=
  (positions oldStr (decode file)).length = 1

instance (file : List Char) (oldStr : Str) : Decidable (InOnePlace file oldStr) :=
  inferInstanceAs (Decidable (_ = _))

/-- No carriage returns to lose and no text that cannot be written. -/
def Writable (file : List Char) (newStr : Str) : Prop :=
  '\r' ∉ file ∧ (encode newStr).isSome = true

instance (file : List Char) (newStr : Str) : Decidable (Writable file newStr) :=
  inferInstanceAs (Decidable (_ ∧ _))

/-- Where the tool is right. -/
def Unambiguous (file : List Char) (oldStr newStr : Str) : Prop :=
  if Writable file newStr then FoundOnce file oldStr → InOnePlace file oldStr
  else ¬FoundOnce file oldStr ∧ ¬InOnePlace file oldStr

instance (file : List Char) (oldStr newStr : Str) : Decidable (Unambiguous file oldStr newStr) :=
  inferInstanceAs (Decidable (if Writable file newStr then
    FoundOnce file oldStr → InOnePlace file oldStr
    else ¬FoundOnce file oldStr ∧ ¬InOnePlace file oldStr))

variable {path : String} {file : List Char} {oldStr newStr : Str}

/-! ## Encoding -/

theorem encode_decode (file : List Char) : encode (decode file) = some file := by
  induction file with
  | nil => rfl
  | cons c file ih => rw [decode, List.map_cons, encode, ← decode, ih, Option.map_some]

theorem decode_of_encode {s : Str} {file : List Char} (h : encode s = some file) :
    decode file = s := by
  induction s generalizing file with
  | nil =>
    cases h
    rfl
  | cons a s ih =>
    cases a with
    | char c =>
      obtain ⟨rest, hrest, rfl⟩ := Option.map_eq_some_iff.mp h
      rw [decode, List.map_cons, ← decode, ih hrest]
    | half code => cases h

theorem isSome_encode_append (s t : Str) :
    (encode (s ++ t)).isSome = ((encode s).isSome && (encode t).isSome) := by
  induction s with
  | nil => rfl
  | cons a s ih =>
    cases a with
    | char c => simpa [encode] using ih
    | half code => rfl

theorem cr_mem_decode : CodePoint.char '\r' ∈ decode file ↔ '\r' ∈ file := by
  simp [decode]

/-! ## The two outcomes -/

theorem strReplace_found (newStr : Str) (hpath : isSafePath path = true) (hold : oldStr ≠ [])
    (h : FoundOnce file oldStr) : ∃ offset,
      matchOffsets oldStr (universalNewlines breaks (decode file)) = [offset] ∧
        strReplace path (.text file) oldStr newStr =
          writeText (replaceFirst oldStr newStr (universalNewlines breaks (decode file)))
            (.replaced (lineNumberForOffset (universalNewlines breaks (decode file)) offset)) := by
  obtain ⟨offset, hoffset⟩ := List.length_eq_one_iff.mp h
  refine ⟨offset, hoffset, ?_⟩
  rw [strReplace, hpath, if_neg (by simp), if_neg hold]
  simp only [hoffset]

theorem strReplace_notFound (newStr : Str) (hpath : isSafePath path = true) (hold : oldStr ≠ [])
    (h : ¬FoundOnce file oldStr) :
    (strReplace path (.text file) oldStr newStr).reply.isError = true ∧
      (strReplace path (.text file) oldStr newStr).file = .text file := by
  rw [strReplace, hpath, if_neg (by simp), if_neg hold]
  dsimp only
  split
  · exact ⟨rfl, rfl⟩
  · rename_i offset hoffset
    exact absurd (by rw [FoundOnce, hoffset]; rfl) h
  · exact ⟨rfl, rfl⟩

theorem inOnePlace_iff (hold : oldStr ≠ []) :
    InOnePlace file oldStr ↔ ∃! i, oldStr <+: (decode file).drop i := by
  rw [existsUnique_iff hold, InOnePlace, List.length_eq_one_iff]

/-- A tool that fails and leaves the file is right if there is not one place. -/
theorem editsExactly_notFound (hpath : isSafePath path = true) (hold : oldStr ≠ [])
    (h : ¬FoundOnce file oldStr) :
    EditsExactly path file oldStr newStr ↔ ¬InOnePlace file oldStr := by
  obtain ⟨herror, hfile⟩ := strReplace_notFound newStr hpath hold h
  rw [EditsExactly, inOnePlace_iff hold, herror, hfile]
  simp

/-- The first occurrence in what was read, and what is written. -/
theorem replaceFirst_found (newStr : Str) {s : Str} {offset : Nat} (h : matchOffsets oldStr s = [offset]) :
    s = s.take offset ++ oldStr ++ s.drop (offset + oldStr.length) ∧
      replaceFirst oldStr newStr s =
        s.take offset ++ newStr ++ s.drop (offset + oldStr.length) :=
  replaceFirst_eq (by rw [h]; rfl)

theorem isSome_encode_decode (s : Str) (h : ∀ a ∈ s, ∃ c, a = .char c) :
    (encode s).isSome = true := by
  induction s with
  | nil => rfl
  | cons a s ih =>
    obtain ⟨c, rfl⟩ := h a List.mem_cons_self
    simpa [encode] using ih fun x hx => h x (List.mem_cons_of_mem _ hx)

/-- What is written can be encoded exactly if the new text can. -/
theorem isSome_encode_replaced (file : List Char) (newStr : Str) (i j : Nat) :
    (encode ((universalNewlines breaks (decode file)).take i ++ newStr ++
      (universalNewlines breaks (decode file)).drop j)).isSome = (encode newStr).isSome := by
  have hchar : ∀ a ∈ universalNewlines breaks (decode file), ∃ c, a = .char c := by
    intro a ha
    rcases mem_universalNewlines ha with hmem | rfl
    · obtain ⟨c, -, rfl⟩ := List.mem_map.mp hmem
      exact ⟨c, rfl⟩
    · exact ⟨_, rfl⟩
  have hleft := isSome_encode_decode _ fun a ha =>
    hchar a (List.mem_of_mem_take (i := i) ha)
  have hright := isSome_encode_decode _ fun a ha =>
    hchar a (List.mem_of_mem_drop (i := j) ha)
  rw [isSome_encode_append, isSome_encode_append, hleft, hright, Bool.true_and, Bool.and_true]

/-- The tool has found one occurrence and can write what it makes of the file. -/
theorem strReplace_written (hpath : isSafePath path = true) (hold : oldStr ≠ [])
    (hnew : (encode newStr).isSome = true) (h : FoundOnce file oldStr) :
    ∃ offset edited,
      matchOffsets oldStr (universalNewlines breaks (decode file)) = [offset] ∧
      (strReplace path (.text file) oldStr newStr).reply.isError = false ∧
      (strReplace path (.text file) oldStr newStr).file = .text edited ∧
      decode edited = (universalNewlines breaks (decode file)).take offset ++ newStr ++
        (universalNewlines breaks (decode file)).drop (offset + oldStr.length) := by
  obtain ⟨offset, hoffset, hout⟩ := strReplace_found newStr hpath hold h
  have hreplaced := (replaceFirst_found newStr hoffset).2
  have hsome := isSome_encode_replaced file newStr offset (offset + oldStr.length)
  rw [hnew, ← hreplaced] at hsome
  obtain ⟨edited, hedited⟩ := Option.isSome_iff_exists.mp hsome
  refine ⟨offset, edited, hoffset, ?_, ?_, ?_⟩
  · rw [hout, writeText, hedited]
    rfl
  · rw [hout, writeText, hedited]
  · rw [decode_of_encode hedited, hreplaced]

/-- Without carriage returns the tool is right if there is one place. -/
theorem editsExactly_writable (hpath : isSafePath path = true) (hold : oldStr ≠ [])
    (hwritable : Writable file newStr) (h : FoundOnce file oldStr) :
    EditsExactly path file oldStr newStr ↔ InOnePlace file oldStr := by
  have hread : universalNewlines breaks (decode file) = decode file :=
    universalNewlines_eq_self (fun hmem => hwritable.1 (cr_mem_decode.mp hmem))
  obtain ⟨offset, edited, hoffset, herror, hfile, hedited⟩ :=
    strReplace_written hpath hold hwritable.2 h
  rw [hread] at hoffset hedited
  rw [inOnePlace_iff hold, EditsExactly, herror, hfile]
  constructor
  · exact fun hright => hright.1.mp rfl
  · intro hone
    refine ⟨iff_of_true rfl hone, fun i _ hi => ⟨edited, rfl, ?_⟩, fun hfalse => by cases hfalse⟩
    obtain ⟨j, hj⟩ := (existsUnique_iff hold).mp hone
    have hi := (mem_positions hold).mpr hi
    rw [hj, List.mem_singleton] at hi
    have hsame := matchOffsets_of_positions hj
    rw [hoffset] at hsame
    rw [hedited, hi, (List.cons.inj hsame).1]

/-- The carriage returns of a file are not written back. -/
theorem not_editsExactly_cr (hpath : isSafePath path = true) (hold : oldStr ≠ [])
    (hcr : '\r' ∈ file) (hnew : (encode newStr).isSome = true) (h : FoundOnce file oldStr) :
    ¬EditsExactly path file oldStr newStr := by
  obtain ⟨offset, edited, hoffset, herror, hfile, hedited⟩ :=
    strReplace_written hpath hold hnew h
  intro hright
  rw [EditsExactly, herror, hfile] at hright
  obtain ⟨i, hi, -⟩ := hright.1.mp rfl
  obtain ⟨other, hother, hbytes⟩ := hright.2.1 i rfl hi
  cases hother
  have hnone := cr_not_mem_universalNewlines breaks (decode file)
  have hcontent := (replaceFirst_found newStr hoffset).1
  -- no carriage return in what was read, so none in the old text
  have hreadCount : ∀ t : Str, (∀ a ∈ t, a ∈ universalNewlines breaks (decode file)) →
      t.count (.char '\r') = 0 := by
    intro t ht
    exact List.count_eq_zero.mpr fun hmem => hnone (ht _ hmem)
  have hold0 : oldStr.count (.char '\r') = 0 := hreadCount oldStr fun a ha => by
    rw [hcontent]
    simp [ha]
  have htake := hreadCount ((universalNewlines breaks (decode file)).take offset)
    fun a ha => List.mem_of_mem_take ha
  have hdrop := hreadCount
    ((universalNewlines breaks (decode file)).drop (offset + oldStr.length))
    fun a ha => List.mem_of_mem_drop ha
  have hfileCount : 0 < (decode file).count (.char '\r') :=
    List.count_pos_iff.mpr (cr_mem_decode.mpr hcr)
  obtain ⟨rest, hrest⟩ := hi
  have hsplit : decode file =
      (decode file).take i ++ oldStr ++ (decode file).drop (i + oldStr.length) := by
    rw [← List.drop_drop, ← hrest, List.drop_left, List.append_assoc, hrest,
      List.take_append_drop]
  have hcount := congrArg (List.count (CodePoint.char '\r')) (hedited.symm.trans hbytes)
  have htotal := congrArg (List.count (CodePoint.char '\r')) hsplit
  rw [List.count_append, List.count_append] at hcount htotal
  rw [List.count_append, List.count_append] at hcount
  omega

/-- A text that cannot be encoded empties the file. -/
theorem not_editsExactly_raised (hpath : isSafePath path = true) (hold : oldStr ≠ [])
    (hnew : (encode newStr).isSome = false) (h : FoundOnce file oldStr) :
    ¬EditsExactly path file oldStr newStr := by
  obtain ⟨offset, hoffset, hout⟩ := strReplace_found newStr hpath hold h
  have hsome := isSome_encode_replaced file newStr offset (offset + oldStr.length)
  rw [hnew, ← (replaceFirst_found newStr hoffset).2] at hsome
  rw [Option.isSome_eq_false_iff, Option.isNone_iff_eq_none] at hsome
  intro hright
  rw [EditsExactly, hout, writeText, hsome] at hright
  have hempty := hright.2.2 rfl
  cases hempty
  -- nothing is found in an empty file
  cases hoffset

/-- **When the edit is exact.** -/
theorem edits_exactly_iff (hpath : isSafePath path = true) (hold : oldStr ≠ []) :
    EditsExactly path file oldStr newStr ↔ Unambiguous file oldStr newStr := by
  by_cases hfound : FoundOnce file oldStr
  · by_cases hwritable : Writable file newStr
    · rw [editsExactly_writable hpath hold hwritable hfound, Unambiguous, if_pos hwritable]
      exact ⟨fun hone _ => hone, fun h => h hfound⟩
    · rw [Unambiguous, if_neg hwritable]
      refine iff_of_false ?_ fun h => h.1 hfound
      cases hnew : (encode newStr).isSome with
      | false => exact not_editsExactly_raised hpath hold hnew hfound
      | true =>
        have hcr : '\r' ∈ file := by
          by_contra hcr
          exact hwritable ⟨hcr, hnew⟩
        exact not_editsExactly_cr hpath hold hcr hnew hfound
  · rw [editsExactly_notFound hpath hold hfound, Unambiguous]
    split
    · rename_i hwritable
      have hread : universalNewlines breaks (decode file) = decode file :=
        universalNewlines_eq_self (fun hmem => hwritable.1 (cr_mem_decode.mp hmem))
      refine iff_of_true ?_ fun h => absurd h hfound
      intro hone
      obtain ⟨i, hi⟩ := List.length_eq_one_iff.mp hone
      apply hfound
      rw [FoundOnce, hread, matchOffsets_of_positions hi]
      rfl
    · exact ⟨fun h => ⟨hfound, h⟩, fun h => h.2⟩

/-- A line of a file without carriage returns. -/
theorem edits_exactly_iff_greeting :
    EditsExactly "notes/a.txt" "hello world\n".toList (decode "world".toList)
      (decode "there".toList) ↔
    Unambiguous "hello world\n".toList (decode "world".toList) (decode "there".toList) :=
  edits_exactly_iff (by decide +kernel) (by decide +kernel)

/-- `aa` in `aaa` stands in two places and is found once; `b` in a file with
carriage returns is replaced, and the carriage returns are lost. -/
theorem not_always_exact :
    ¬EditsExactly "a.txt" "aaa".toList (decode "aa".toList) (decode "b".toList) ∧
      ¬EditsExactly "a.txt" "a\r\nb\r\n".toList (decode "b".toList) (decode "c".toList) := by
  have hplaces : ¬InOnePlace "aaa".toList (decode "aa".toList) := by decide +kernel
  constructor
  · rw [editsExactly_writable (by decide +kernel) (by decide +kernel) (by decide +kernel)
      (by decide +kernel)]
    exact hplaces
  · exact not_editsExactly_cr (by decide +kernel) (by decide +kernel) (by decide +kernel)
      (by decide +kernel) (by decide +kernel)

end NeuralHub.FileEdit
