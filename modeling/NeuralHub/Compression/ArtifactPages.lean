/-
NeuralHub.Compression.ArtifactPages — which outputs can be read back from
their artifacts.

`read_back_iff`: all that are no JSON, and of the others those whose value
has no half of a surrogate pair and is no object with a string `raw`. The
paging is right for every text and every sequence of limits
(`flatMap_readPages`, `exists_readPages`): a page that has more behind it
is not empty. What is printed is loaded again and has no line end that
`read_text` would change, so the artifact of any value gives `sourceOf`
that value (`sourceText_dumpsIndented`). The string `raw` that is given
instead of an object is shorter than the output, and so are all strings of
its own value: it is no text of that object. Which doubles the floats are
makes no difference to any of this.
-/
import NeuralHub.Compression.Artifacts

namespace NeuralHub.Compression

open Lib

variable {fl : FloatReading} {text file : List Char} {limits : Nat → Nat} {offset : Nat}

/-! ## Pages -/

theorem pageLimit_pos (value : Nat) : 0 < pageLimit value := by
  unfold pageLimit
  split
  · decide
  · rename_i hvalue
    have hmax : 0 < maxPageChars := by decide
    omega

/-- A page and what is behind it. -/
theorem readPage_append (limit : Nat) (h : offset ≤ text.length) :
    (readPage text offset limit).text ++
      text.drop (offset + (readPage text offset limit).returnedChars) = text.drop offset := by
  have htext : (readPage text offset limit).text =
      (text.drop offset).take (min (offset + pageLimit limit) text.length - offset) := by
    simp only [readPage, Nat.min_eq_left h, List.drop_take]
  have hcount : (readPage text offset limit).returnedChars =
      min (offset + pageLimit limit) text.length - offset := by
    rw [show (readPage text offset limit).returnedChars =
      (readPage text offset limit).text.length from rfl, htext, List.length_take, List.length_drop]
    omega
  rw [htext, hcount, ← List.drop_drop, List.take_append_drop]

theorem readPage_returned_le (limit : Nat) (h : offset ≤ text.length) :
    offset + (readPage text offset limit).returnedChars ≤ text.length := by
  have hlength := congrArg List.length (readPage_append limit h)
  rw [List.length_append, List.length_drop, List.length_drop] at hlength
  have hcount : (readPage text offset limit).text.length =
      (readPage text offset limit).returnedChars := rfl
  omega

/-- A page that has more behind it is not empty. -/
theorem readPage_returned_pos {limit : Nat} (h : offset ≤ text.length)
    (hmore : (readPage text offset limit).hasMore = true) :
    0 < (readPage text offset limit).returnedChars := by
  have hlimit := pageLimit_pos limit
  simp only [readPage, Nat.min_eq_left h, decide_eq_true_eq] at hmore
  simp only [readPage, Nat.min_eq_left h, List.length_drop, List.length_take]
  omega

theorem readPage_last {limit : Nat} (h : offset ≤ text.length)
    (hmore : (readPage text offset limit).hasMore = false) :
    (readPage text offset limit).text = text.drop offset := by
  simp only [readPage, Nat.min_eq_left h, decide_eq_false_iff_not, Nat.not_lt] at hmore
  simp only [readPage, Nat.min_eq_left h]
  rw [List.take_of_length_le (Nat.le_trans (Nat.le_refl _) (by omega))]

/-- Whatever was read is the text. -/
theorem flatMap_readPages (hsource : sourceText fl file = some text) {fuel n : Nat}
    {pages : List Page} (h : offset ≤ text.length)
    (hpages : readPages fl file limits fuel n offset = some pages) :
    pages.flatMap Page.text = text.drop offset := by
  induction fuel generalizing n offset pages with
  | zero => cases hpages
  | succ fuel ih =>
    rw [readPages, readHistory, hsource, Option.map_some] at hpages
    dsimp only at hpages
    split at hpages
    · obtain ⟨rest, hrest, rfl⟩ := Option.map_eq_some_iff.mp hpages
      rw [List.flatMap_cons, ih (readPage_returned_le _ h) hrest]
      exact readPage_append _ h
    · rename_i hlast
      cases hpages
      rw [List.flatMap_cons, List.flatMap_nil, List.append_nil,
        readPage_last h (by simpa using hlast)]

/-- Reading ends: what is left gets shorter with every page. -/
theorem exists_readPages (hsource : sourceText fl file = some text) (limits : Nat → Nat)
    {fuel : Nat} (n : Nat) (h : offset ≤ text.length) (hfuel : text.length - offset < fuel) :
    ∃ pages, readPages fl file limits fuel n offset = some pages := by
  induction fuel generalizing n offset with
  | zero => exact absurd hfuel (Nat.not_lt_zero _)
  | succ fuel ih =>
    rw [readPages, readHistory, hsource, Option.map_some]
    dsimp only
    split
    · rename_i hmore
      have hpos := readPage_returned_pos h hmore
      have hle := readPage_returned_le (limits n) h
      obtain ⟨rest, hrest⟩ := ih (n + 1) hle (by omega)
      exact ⟨_, by rw [hrest, Option.map_some]⟩
    · exact ⟨_, rfl⟩

/-- Reading from the start, under any limits. -/
theorem readBack_of_source {output : List Char} (hfile : writeArtifact fl output = some file)
    (hsource : sourceText fl file = some text) : ReadBack fl output ↔ SameContent fl output text := by
  constructor
  · rintro ⟨other, hother, hread⟩
    rw [hfile] at hother
    cases hother
    obtain ⟨fuel, pages, hpages, hsame⟩ := hread fun _ => 0
    rw [flatMap_readPages hsource (Nat.zero_le _) hpages, List.drop_zero] at hsame
    exact hsame
  · intro hsame
    refine ⟨file, hfile, fun limits => ?_⟩
    obtain ⟨pages, hpages⟩ := exists_readPages hsource limits 0 (Nat.zero_le text.length)
      (Nat.lt_succ_self _)
    refine ⟨_, pages, hpages, ?_⟩
    rw [flatMap_readPages hsource (Nat.zero_le _) hpages, List.drop_zero]
    exact hsame

/-! ## The file -/

theorem readText_eq {s : List Char} (h : '\r' ∉ s) : readText s = s := by
  induction s with
  | nil => rfl
  | cons c s ih =>
    rw [List.mem_cons, not_or] at h
    rw [readText, ih h.2]
    · exact fun _ heq => absurd heq.symm h.1
    · exact fun heq => absurd heq.symm h.1

/-- What is read from the artifact of a value. -/
theorem sourceText_dumpsIndented (fl : FloatReading) {v : Json} (h : v.valid = true) :
    sourceText fl (v.floats fl).dumpsIndented = some (sourceOf (v.floats fl)) := by
  have hreturn : '\r' ∉ (v.floats fl).dumpsIndented :=
    control_not_mem_laid (by decide) (indented_without (by decide) (by decide)) 0 _
  have hload : fl.load (v.floats fl).dumpsIndented = .value (v.floats fl) :=
    FloatReading.load_laid h
  rw [sourceText, readText_eq hreturn, hload]

theorem valid_rawObject (output : List Char) : (rawObject output).valid = true := rfl

theorem floats_rawObject (fl : FloatReading) (output : List Char) :
    (rawObject output).floats fl = rawObject output := rfl

theorem load_rawObject (fl : FloatReading) (output : List Char) :
    fl.load (rawObject output).dumpsIndented = .value (rawObject output) := by
  have hload : fl.load ((rawObject output).floats fl).dumpsIndented =
      .value ((rawObject output).floats fl) := FloatReading.load_laid (valid_rawObject output)
  rwa [floats_rawObject] at hload

theorem sourceOf_rawObject (output : List Char) : sourceOf (rawObject output) = output := by
  have hraw : rawMember (rawObject output) = some (String.ofList output) := rfl
  rw [sourceOf, hraw]
  exact String.toList_ofList

theorem sourceOf_of_rawMember {v : Json} (h : rawMember v = none) :
    sourceOf v = v.dumpsIndented := by
  rw [sourceOf, h]

/-- The doubles do not change which object has a string `raw`. -/
theorem rawMember_floats (fl : FloatReading) (v : Json) : rawMember (v.floats fl) = rawMember v := by
  cases v with
  | obj members =>
    rw [Json.floats, rawMember, rawMember, Members.get?_floats]
    cases members.get? "raw" with
    | none => rfl
    | some value =>
      cases value with
      | float x => cases x <;> rfl
      | _ => rfl
  | float x => cases x <;> rfl
  | _ => rfl

/-- The string `raw` of an object is no text of an object with this string. -/
theorem rawMember_ne_of_load {v : Json} {raw : String} (hload : load raw.toList = .value v) :
    rawMember v ≠ some raw := by
  intro hraw
  cases v with
  | obj members =>
    rw [rawMember] at hraw
    split at hraw
    · rename_i s hget
      cases hraw
      exact Nat.lt_irrefl _ (length_lt_of_load hload hget)
    · cases hraw
  | _ => cases hraw

theorem load_raw_ne {v : Json} {raw : String} (hraw : rawMember v = some raw) :
    fl.load raw.toList ≠ .value (v.floats fl) := by
  intro hsame
  obtain ⟨w, hload, hw⟩ := FloatReading.load_eq_value hsame
  refine rawMember_ne_of_load hload ?_
  rw [← rawMember_floats fl, ← hw, rawMember_floats, hraw]

/-! ## What comes back -/

theorem readBack_raw {output : List Char} (h : parseJson fl output = .invalid) :
    ReadBack fl output ↔ SameContent fl output output := by
  have hfile : writeArtifact fl output = some (rawObject output).dumpsIndented := by
    rw [writeArtifact, artifactValue, h]
  have hsource := sourceText_dumpsIndented fl (valid_rawObject output)
  rw [floats_rawObject, sourceOf_rawObject] at hsource
  exact readBack_of_source hfile hsource

theorem sameContent_self (output : List Char) : SameContent fl output output := by
  unfold SameContent
  split <;> rfl

theorem readBack_value {output : List Char} {v : Json} (hload : load output = .value v)
    (hnull : v ≠ .null) : ReadBack fl output ↔ rawMember v = none := by
  have hdoubles : fl.load output = .value (v.floats fl) := FloatReading.load_of_value hload
  have hparse : parseJson fl output = .value (v.floats fl) := by
    unfold parseJson
    rw [hdoubles]
    have hne : v.floats fl ≠ .null := fun heq => hnull (Json.floats_eq_null.mp heq)
    split
    · rename_i heq
      exact absurd (Loaded.value.inj heq) hne
    · rfl
  have hfile : writeArtifact fl output = some (v.floats fl).dumpsIndented := by
    rw [writeArtifact, artifactValue, hparse]
  have hvalid := valid_of_load hload
  rw [readBack_of_source hfile (sourceText_dumpsIndented fl hvalid), SameContent, hdoubles,
    if_neg (by simp)]
  cases hraw : rawMember v with
  | none =>
    have hsource : sourceOf (v.floats fl) = (v.floats fl).dumpsIndented :=
      sourceOf_of_rawMember (by rw [rawMember_floats, hraw])
    rw [hsource]
    exact iff_of_true (FloatReading.load_laid hvalid) rfl
  | some raw =>
    have hsource : sourceOf (v.floats fl) = raw.toList := by
      rw [sourceOf, rawMember_floats, hraw]
    rw [hsource]
    exact iff_of_false (load_raw_ne hraw) (by simp)

/-- **Which outputs can be read back.** -/
theorem read_back_iff (fl : FloatReading) (output : List Char) :
    ReadBack fl output ↔ keepsContent output = true := by
  unfold keepsContent
  cases hload : load output with
  | invalid =>
    have hparse : parseJson fl output = .invalid := by
      rw [parseJson, FloatReading.load_of_invalid hload]
    exact iff_of_true ((readBack_raw hparse).mpr (sameContent_self output)) rfl
  | halves =>
    have hfile : writeArtifact fl output = none := by
      rw [writeArtifact, artifactValue, parseJson, FloatReading.load_of_halves hload]
    refine iff_of_false ?_ Bool.false_ne_true
    rintro ⟨file, hsome, -⟩
    rw [hfile] at hsome
    cases hsome
  | value v =>
    by_cases hnull : v = .null
    · subst hnull
      have hparse : parseJson fl output = .invalid := by
        rw [parseJson, FloatReading.load_of_value hload, Json.floats_eq_null.mpr rfl]
      exact iff_of_true ((readBack_raw hparse).mpr (sameContent_self output)) rfl
    · exact (readBack_value hload hnull).trans Option.isNone_iff_eq_none.symm

/-- The artifact has the doubles, and they are read back. -/
example : writeArtifact twoLiterals "[2.50]".toList = some "[\n  2.5\n]".toList ∧
    readHistory twoLiterals "[\n  2.5\n]".toList 0 0 =
      some ⟨0, 9, 9, false, "[\n  2.5\n]".toList⟩ := by decide +kernel

/-- A half that a later member replaces is not in the way. -/
example : keepsContent "\x7b\"a\": \"\\ud800\", \"a\": 1\x7d".toList = true := by decide +kernel

/-- The output `{"raw": "x"}` comes back as `x`. -/
theorem not_always_read_back : ¬ ∀ (fl : FloatReading) (output : List Char),
    ReadBack fl output := by
  intro h
  have hload : load "\x7b\"raw\": \"x\"\x7d".toList =
      .value (.obj (.cons "raw" (.str "x") .nil)) := by decide +kernel
  have hraw := (readBack_value hload (by simp)).mp (h twoLiterals _)
  exact absurd hraw (by decide)

end NeuralHub.Compression
