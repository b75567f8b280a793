/-
NeuralHub.Knowledge.ChunkerTheorems — chunking loses no text.

`splitText_windowed`: the chunks of a text are windows of it, stripped, one
after the other; their ends grow, neighbours overlap by at most
`overlapChars`, and every character that is no white space is in a window.
The text is the normalised one with each run of line feeds cut to two
(`squeeze`), since paragraphs are put together with one blank line whatever
was between them; without that a chunk need not be a window
(`not_windows_of_normalize`).

`tailWindowed` carries the windows through the paragraphs, and
`splitLongFrom_windowed` through a long one: there a window ends at the end
of the text or at least `minChunkChars` behind its start, which is more than
the next window reaches back.
-/
import NeuralHub.Knowledge.Chunker
import Mathlib.Data.List.TakeWhile

namespace NeuralHub.Knowledge

open Lib Lib.Text

/-- The text with each run of line feeds cut to two; `run` of them have just been kept. -/
def squeezeFrom : (run : Nat) → List Char → List Char
  | _, [] => []
  | run, c :: rest =>
    if c = '\n' then if run < 2 then c :: squeezeFrom (run + 1) rest else squeezeFrom run rest
    else c :: squeezeFrom 0 rest

def squeeze (s : List Char) : List Char := squeezeFrom 0 s

/-- A chunk is what is left of its window when it is stripped, and not too long. -/
def ShownAs (window chunk : List Char) : Prop :=
  chunk = strip window ∧ chunk ≠ [] ∧ chunk.length ≤ maxChunkChars

abbrev ChunkWindows (s : List Char) :=
  Windowed isSpace ShownAs overlapChars s

variable {s t : List Char} {c : Char} {skip : Bool}

/-! ## Stripped texts -/

/-- White space neither begins nor ends the text. -/
structure Trim (s : List Char) : Prop where
  head : ∀ c ∈ s.head?, isSpace c = false
  last : ∀ c ∈ s.getLast?, isSpace c = false

theorem trim_strip (s : List Char) : Trim (strip s) := by
  have hrstrip (t : List Char) : ∀ c ∈ (rstrip t).getLast?, isSpace c = false := by
    intro c hc
    rw [rstrip, List.getLast?_reverse] at hc
    have hnot := List.head?_dropWhile_not isSpace t.reverse
    rw [Option.mem_def.mp hc] at hnot
    simpa using hnot
  refine ⟨fun c hc => ?_, hrstrip _⟩
  rw [strip] at hc
  cases hl : lstrip s with
  | nil =>
    rw [hl] at hc
    cases hc
  | cons d rest =>
    have hd : isSpace d = false := by
      have hnot := List.head?_dropWhile_not isSpace s
      rw [lstrip] at hl
      simpa [hl] using hnot
    have hright : rstrip (d :: rest) = d :: rstrip rest := rstrip_append hd [] rest
    rw [hl, hright] at hc
    cases hc
    exact hd

theorem Trim.strip_eq (h : Trim s) : strip s = s := by
  have hl : lstrip s = s := by
    cases s with
    | nil => rfl
    | cons c s => rw [lstrip, List.dropWhile_cons_of_neg (by rw [h.head c rfl]; simp)]
  have hr : rstrip s = s := by
    cases hs : s.reverse with
    | nil =>
      rw [List.reverse_eq_nil_iff.mp hs]
      rfl
    | cons c t =>
      have hlast : s.getLast? = some c := by
        rw [← List.head?_reverse, hs]
        rfl
      rw [rstrip, hs, List.dropWhile_cons_of_neg (by rw [h.last c hlast]; simp), ← hs,
        List.reverse_reverse]
  rw [strip, hl, hr]

theorem infix_strip (s : List Char) : strip s <:+: s := by
  have hr (t : List Char) : rstrip t <+: t := by
    have hsuffix := List.dropWhile_suffix isSpace (l := t.reverse)
    rw [← List.reverse_prefix, List.reverse_reverse] at hsuffix
    exact hsuffix
  exact (hr (lstrip s)).isInfix.trans (List.dropWhile_suffix isSpace).isInfix

/-! ## Paragraphs -/

theorem splitBlank_ne_nil (skip : Bool) (s : List Char) : splitBlank skip s ≠ [] := by
  have hconsHead (c : Char) (parts : List (List Char)) : consHead c parts ≠ [] := by
    cases parts <;> simp [consHead]
  induction s generalizing skip with
  | nil => simp [splitBlank]
  | cons c rest ih =>
    rw [splitBlank]
    split
    · split
      · exact ih true
      · split
        · simp
        · exact hconsHead _ _
    · exact hconsHead _ _

/-- The parts with two line feeds between them. -/
theorem intercalate_splitBlank (skip : Bool) (s : List Char) :
    ['\n', '\n'].intercalate (splitBlank skip s) = squeezeFrom (if skip then 2 else 0) s := by
  have hconsHead (c : Char) (parts : List (List Char)) :
      ['\n', '\n'].intercalate (consHead c parts) = c :: ['\n', '\n'].intercalate parts := by
    cases parts with
    | nil => rfl
    | cons part parts => cases parts <;> simp [consHead]
  induction s generalizing skip with
  | nil => simp [splitBlank, squeezeFrom]
  | cons c rest ih =>
    rw [splitBlank, squeezeFrom]
    split
    · rename_i hc
      subst hc
      cases skip with
      | true => simpa using ih true
      | false =>
        simp only [Bool.false_eq_true, if_false]
        split
        · rename_i hhead
          obtain ⟨r, rfl⟩ := List.head?_eq_some_iff.mp hhead
          have hrest := ih true
          rw [List.intercalate_cons_of_ne_nil (splitBlank_ne_nil true _), hrest]
          simp [squeezeFrom]
        · rename_i hhead
          have hrest := ih false
          rw [hconsHead, hrest]
          cases rest with
          | nil => simp [squeezeFrom]
          | cons d rest =>
            have hd : d ≠ '\n' := fun h => hhead (by rw [h]; rfl)
            simp [squeezeFrom, hd]
    · rw [hconsHead, ih false]
      simp

/-- Beside a line feed stand line feeds and characters that are no white space. -/
def Smooth (a b : Char) : Prop :=
  (a = '\n' → b ≠ '\n' → isSpace b = false) ∧ (b = '\n' → a ≠ '\n' → isSpace a = false)

/-- A part that is not empty and has nothing to strip. -/
def Part (p : List Char) : Prop := p ≠ [] ∧ Trim p

theorem ne_newline_of_not_space (h : isSpace c = false) : c ≠ '\n' := by
  rintro rfl
  cases h

theorem ne_nil_of_last {rest : List Char}
    (hlast : ∀ d ∈ ('\n' :: rest).getLast?, isSpace d = false) : rest ≠ [] := by
  rintro rfl
  exact absurd (hlast '\n' rfl) (by decide)

/-- The parts of a text without white space at the line ends: all but the first are
parts in this sense, and the first one too behind a line feed. -/
theorem splitBlank_spec (skip : Bool) (s : List Char)
    (hsmooth : (if skip then '\n' :: s else s).IsChain Smooth)
    (hlast : ∀ d ∈ s.getLast?, isSpace d = false) :
    ∃ p ps, splitBlank skip s = p :: ps ∧ (∀ q ∈ ps, Part q) ∧
      (∀ d ∈ p.getLast?, isSpace d = false) ∧ (skip = true → s ≠ [] → Part p) ∧
      (skip = false → s.head? ≠ some '\n' → p.head? = s.head?) := by
  induction s generalizing skip with
  | nil => exact ⟨[], [], rfl, by simp, by simp, by simp, by simp⟩
  | cons c rest ih =>
    have hlastRest : rest ≠ [] → ∀ d ∈ rest.getLast?, isSpace d = false := by
      intro hne d hd
      obtain ⟨x, y, rfl⟩ := List.exists_cons_of_ne_nil hne
      exact hlast d (by rwa [List.getLast?_cons_cons])
    have hlastRest' : ∀ d ∈ rest.getLast?, isSpace d = false := by
      cases hrest : rest with
      | nil => simp
      | cons x y => rw [← hrest]; exact hlastRest (by simp [hrest])
    by_cases hc : c = '\n'
    · subst hc
      have hne := ne_nil_of_last hlast
      rw [splitBlank, if_pos rfl]
      cases skip with
      | true =>
        rw [if_pos rfl] at hsmooth ⊢
        obtain ⟨p, ps, hsplit, hps, hplast, hpart, -⟩ :=
          ih true (by simpa using hsmooth.tail) hlastRest'
        exact ⟨p, ps, hsplit, hps, hplast, fun _ _ => hpart rfl hne, by simp⟩
      | false =>
        rw [if_neg (by simp)] at hsmooth ⊢
        by_cases hhead : rest.head? = some '\n'
        · rw [if_pos hhead]
          obtain ⟨p, ps, hsplit, hps, -, hpart, -⟩ := ih true (by simpa using hsmooth) hlastRest'
          rw [hsplit]
          refine ⟨[], p :: ps, rfl, ?_, by simp, by simp, by simp⟩
          intro q hq
          rcases List.mem_cons.mp hq with rfl | hq
          · exact hpart rfl hne
          · exact hps q hq
        · rw [if_neg hhead]
          obtain ⟨p, ps, hsplit, hps, hplast, -, hphead⟩ :=
            ih false (by simpa using hsmooth.tail) hlastRest'
          rw [hsplit]
          refine ⟨'\n' :: p, ps, rfl, hps, ?_, by simp, by simp⟩
          obtain ⟨x, y, rfl⟩ := List.exists_cons_of_ne_nil hne
          obtain ⟨z, rfl⟩ := List.head?_eq_some_iff.mp (hphead rfl hhead)
          intro d hd
          exact hplast d (by rwa [List.getLast?_cons_cons] at hd)
    · have hchain : (c :: rest).IsChain Smooth := by
        cases skip with
        | true => simpa using hsmooth.tail
        | false => simpa using hsmooth
      rw [splitBlank, if_neg hc]
      obtain ⟨p, ps, hsplit, hps, hplast, -, hphead⟩ :=
        ih false (by simpa using hchain.tail) hlastRest'
      rw [hsplit]
      have hclast : ∀ d ∈ (c :: p).getLast?, isSpace d = false := by
        cases hp : p with
        | nil =>
          intro d hd
          cases hd
          cases hrest : rest with
          | nil => exact hlast c (by rw [hrest]; rfl)
          | cons x y =>
            -- nothing is left of the first part, so two line feeds follow
            have hx : x = '\n' := by
              by_contra hx
              have hhead := hphead rfl (by simpa [hrest] using hx)
              rw [hp, hrest] at hhead
              cases hhead
            rw [hrest] at hchain
            exact (List.isChain_cons_cons.mp hchain).1.2 hx hc
        | cons x y =>
          intro d hd
          rw [List.getLast?_cons_cons, ← hp] at hd
          exact hplast d hd
      refine ⟨c :: p, ps, rfl, hps, hclast, fun hskip _ => ?_, fun _ _ => rfl⟩
      refine ⟨by simp, ?_, hclast⟩
      subst hskip
      rw [if_pos rfl] at hsmooth
      intro d hd
      cases hd
      exact (List.isChain_cons_cons.mp hsmooth).1.1 rfl hc

/-! ## The normalised text -/

theorem smooth_line {line : List Char} (htrim : Trim line) (hline : '\n' ∉ line) :
    ('\n' :: line).IsChain Smooth := by
  refine List.isChain_cons.mpr
    ⟨fun d hd => ⟨fun _ _ => htrim.head d hd, fun _ h => absurd rfl h⟩, ?_⟩
  clear htrim
  induction line with
  | nil => exact .nil
  | cons c line ih =>
    rw [List.mem_cons, not_or] at hline
    refine List.isChain_cons.mpr ⟨fun d hd => ?_, ih hline.2⟩
    have hd : d ≠ '\n' := fun h => hline.2 (h ▸ List.mem_of_head? hd)
    exact ⟨fun h => absurd h.symm hline.1, fun h => absurd h hd⟩

theorem smooth_intercalate {lines : List (List Char)}
    (h : ∀ line ∈ lines, Trim line ∧ '\n' ∉ line) :
    ('\n' :: ['\n'].intercalate lines).IsChain Smooth := by
  induction lines with
  | nil => exact .singleton _
  | cons line lines ih =>
    obtain ⟨htrim, hline⟩ := h line List.mem_cons_self
    have htail := ih fun l hl => h l (List.mem_cons_of_mem line hl)
    cases lines with
    | nil => simpa using smooth_line htrim hline
    | cons next lines =>
      rw [List.intercalate_cons_cons, List.append_assoc, List.singleton_append, ← List.cons_append]
      refine List.isChain_append.mpr ⟨smooth_line htrim hline, htail, fun x hx y hy => ?_⟩
      cases hy
      refine ⟨fun hx' hy' => absurd rfl hy', fun _ hne => ?_⟩
      cases line with
      | nil =>
        cases hx
        exact absurd rfl hne
      | cons c line => exact htrim.last x (by rwa [List.getLast?_cons_cons] at hx)

theorem notMem_splitOn {x : Char} : ∀ {s l : List Char}, l ∈ s.splitOn x → x ∉ l
  | [], l, h => by
    rw [List.splitOn_nil, List.mem_singleton] at h
    rw [h]
    exact List.not_mem_nil
  | c :: s, l, h => by
    rw [List.splitOn_cons_eq_if_modifyHead] at h
    split at h
    · rcases List.mem_cons.mp h with rfl | h
      · exact List.not_mem_nil
      · exact notMem_splitOn h
    · rename_i hc
      have hc : c ≠ x := by simpa using hc
      cases hsplit : s.splitOn x with
      | nil => exact absurd hsplit (List.splitOn_ne_nil _ _)
      | cons part parts =>
        have hpart : ∀ m ∈ part :: parts, x ∉ m := fun m hm => notMem_splitOn (hsplit ▸ hm)
        rw [hsplit, List.modifyHead_cons] at h
        rcases List.mem_cons.mp h with rfl | h
        · rw [List.mem_cons, not_or]
          exact ⟨hc.symm, hpart part List.mem_cons_self⟩
        · exact hpart l (List.mem_cons_of_mem _ h)

theorem smooth_normalize (text : List Char) : (normalize text).IsChain Smooth := by
  have hlines : ∀ line ∈ ((crlfToLf text).splitOn '\n').map strip, Trim line ∧ '\n' ∉ line := by
    intro line hline
    obtain ⟨raw, hraw, rfl⟩ := List.mem_map.mp hline
    exact ⟨trim_strip raw, fun h => notMem_splitOn hraw ((infix_strip raw).subset h)⟩
  exact List.IsChain.infix (smooth_intercalate hlines).tail (infix_strip _)

/-- The paragraphs are the parts of the normalised text, as they are. -/
theorem paragraphs_normalize {text : List Char} (h : normalize text ≠ []) :
    paragraphs (normalize text) = splitBlank false (normalize text) ∧
      ∀ p ∈ paragraphs (normalize text), Part p := by
  have htrim : Trim (normalize text) := trim_strip _
  obtain ⟨p, ps, hsplit, hps, hplast, -, hphead⟩ := splitBlank_spec false (normalize text)
    (by simpa using smooth_normalize text) htrim.last
  obtain ⟨c, rest, hc⟩ := List.exists_cons_of_ne_nil h
  have hspace := htrim.head c (by rw [hc]; rfl)
  have hhead := hphead rfl (by
    rw [hc]
    simpa using ne_newline_of_not_space hspace)
  have hpart : Part p := by
    refine ⟨?_, fun d hd => htrim.head d (hhead ▸ hd), hplast⟩
    rintro rfl
    rw [hc] at hhead
    cases hhead
  have hparts : ∀ q ∈ splitBlank false (normalize text), Part q := by
    rw [hsplit]
    intro q hq
    rcases List.mem_cons.mp hq with rfl | hq
    · exact hpart
    · exact hps q hq
  have hstrip : (splitBlank false (normalize text)).map strip =
      splitBlank false (normalize text) :=
    (List.map_congr_left fun q hq => (hparts q hq).2.strip_eq).trans (List.map_id _)
  have heq : paragraphs (normalize text) = splitBlank false (normalize text) := by
    rw [paragraphs, hstrip]
    exact List.filter_eq_self.mpr fun q hq => by simpa using (hparts q hq).1
  exact ⟨heq, heq ▸ hparts⟩

/-! ## Long paragraphs -/

variable {text : List Char} {start stop : Nat}

theorem rfind_lt (window : List Char) (mark : Char) : rfind window mark < window.length := by
  unfold rfind
  split
  · omega
  · omega

theorem lastBoundary_le (text : List Char) (hstart : start ≤ stop) (hstop : stop ≤ text.length) :
    lastBoundary text start stop ≤ stop := by
  have hlength : (slice text (start, stop)).length = stop - start := by
    rw [slice, List.length_drop, List.length_take, Nat.min_eq_left hstop]
  unfold lastBoundary
  dsimp only
  split
  · exact Nat.le_refl _
  · rename_i hindex
    cases hmax : (['。', '！', '？', '.', '!', '?'].map (rfind (slice text (start, stop)))).max? with
    | none =>
      rw [hmax, Option.getD_none] at hindex
      exact absurd (show (-1 : Int) < 0 by decide) hindex
    | some index =>
      obtain ⟨mark, -, hmark⟩ := List.mem_map.mp (List.max?_mem hmax)
      have hlt := rfind_lt (slice text (start, stop)) mark
      rw [hmark, hlength] at hlt
      rw [hmax, Option.getD_some] at hindex
      rw [Option.getD_some]
      omega

/-- A window ends with the text or is long enough. -/
theorem windowEnd_spec (h : start < text.length) :
    start < windowEnd text start ∧ windowEnd text start ≤ text.length ∧
      windowEnd text start ≤ start + maxChunkChars ∧
      (windowEnd text start = text.length ∨ start + minChunkChars ≤ windowEnd text start) := by
  have hboundary := lastBoundary_le text (Nat.le_min.mpr ⟨Nat.le_add_right start maxChunkChars, Nat.le_of_lt h⟩)
    (Nat.min_le_right _ _)
  unfold windowEnd
  dsimp only
  unfold maxChunkChars at *
  unfold minChunkChars
  split
  · split <;> omega
  · omega

theorem shownAs_slice (hlong : stop ≤ start + maxChunkChars)
    (hne : strip (slice text (start, stop)) ≠ []) :
    ShownAs (slice text (start, stop)) (strip (slice text (start, stop))) := by
  refine ⟨rfl, hne, Nat.le_trans (length_strip_le _) ?_⟩
  rw [slice, List.length_drop, List.length_take]
  dsimp only
  omega

/-- The windows of the loop from `start` on; each of them ends where the first
one ends or behind it. -/
theorem splitLongFrom_windowed (text : List Char) (start : Nat) :
    ∃ windows, ChunkWindows text start text.length windows (splitLongFrom text start) ∧
      ∀ w ∈ windows, windowEnd text start ≤ w.2 := by
  induction hn : text.length - start using Nat.strongRecOn generalizing start with
  | ind n ih =>
    rw [splitLongFrom]
    split
    · rename_i hstart
      obtain ⟨hlt, hle, hlong, hfar⟩ := windowEnd_spec hstart
      have hblank : strip (slice text (start, windowEnd text start)) = [] →
          BlankIn isSpace text start (windowEnd text start) := fun h =>
        blankIn_slice (strip_eq_nil_iff.mp h)
      dsimp only
      split
      · rename_i hend
        have hend : windowEnd text start = text.length := by omega
        rw [hend] at hlt hlong hblank ⊢
        unfold flush
        split
        · rename_i hstrip
          exact ⟨[], windowed_blank (hblank hstrip), fun w hw => absurd hw List.not_mem_nil⟩
        · rename_i hstrip
          refine ⟨_, windowed_one hlt (shownAs_slice hlong hstrip), fun w hw => ?_⟩
          rw [List.mem_singleton.mp hw]
      · rename_i hmore
        have hfar : start + minChunkChars ≤ windowEnd text start := by omega
        unfold minChunkChars at hfar
        have hback : max (windowEnd text start - overlapChars) (start + 1) ≤ windowEnd text start ∧
            windowEnd text start ≤ max (windowEnd text start - overlapChars) (start + 1) +
              overlapChars := by
          unfold overlapChars
          omega
        have hnextStart : max (windowEnd text start - overlapChars) (start + 1) < text.length := by
          omega
        have hnext := windowEnd_spec hnextStart
        obtain ⟨windows, hwindows, hends⟩ := ih _ (by omega)
          (max (windowEnd text start - overlapChars) (start + 1)) rfl
        -- the next window ends behind this one
        have hbehind : windowEnd text start < windowEnd text
            (max (windowEnd text start - overlapChars) (start + 1)) := by
          unfold minChunkChars overlapChars at *
          omega
        have hends' : ∀ w ∈ windows, windowEnd text start < w.2 := fun w hw =>
          Nat.lt_of_lt_of_le hbehind (hends w hw)
        unfold flush
        split
        · rename_i hstrip
          exact ⟨windows, hwindows.skip (hblank hstrip) (by omega) hback.1,
            fun w hw => Nat.le_of_lt (hends' w hw)⟩
        · rename_i hstrip
          refine ⟨_, hwindows.cons (shownAs_slice hlong hstrip) hlt (by omega) hback.1 hback.2 hle
            hends', fun w hw => ?_⟩
          rcases List.mem_cons.mp hw with rfl | hw
          · exact Nat.le_refl _
          · exact Nat.le_of_lt (hends' w hw)
    · rename_i hstart
      exact ⟨[], windowed_blank fun i c hlo hhi _ => absurd hhi (by omega),
        fun w hw => absurd hw List.not_mem_nil⟩

/-! ## All paragraphs -/

theorem windowed_part (pre post : List Char) {windows : List (Nat × Nat)}
    {chunks : List (List Char)} {p : List Char} (h : ChunkWindows p 0 p.length windows chunks) :
    ∃ windows', ChunkWindows (pre ++ (p ++ post)) pre.length (pre.length + p.length) windows'
      chunks := by
  have hshift := h.shift pre post (Nat.le_refl _)
  rw [List.append_assoc, Nat.add_zero] at hshift
  exact ⟨_, hshift⟩

/-- What is in the buffer is one chunk. -/
theorem flush_windowed (pre post : List Char) {buffer : List Char} (hbuffer : Part buffer)
    (hlength : buffer.length ≤ maxChunkChars) :
    ∃ windows, ChunkWindows (pre ++ (buffer ++ post)) pre.length (pre.length + buffer.length)
      windows (flush buffer) := by
  have hstrip := hbuffer.2.strip_eq
  have hslice : slice buffer (0, buffer.length) = buffer := by
    rw [slice, List.take_length, List.drop_zero]
  rw [flush, hstrip, if_neg hbuffer.1]
  refine windowed_part pre post (windowed_one (List.length_pos_iff.mpr hbuffer.1) ?_)
  rw [hslice]
  exact ⟨hstrip.symm, hbuffer.1, hlength⟩

/-- The line feeds between two paragraphs. -/
theorem blankIn_gap (pre post : List Char) :
    BlankIn isSpace (pre ++ (['\n', '\n'] ++ post)) pre.length (pre.length + 2) := by
  intro i c hlo hhi hi
  rw [List.getElem?_append_right hlo, List.getElem?_append_left (by simp; omega)] at hi
  have hmem := List.mem_of_getElem? hi
  simp only [List.mem_cons, List.not_mem_nil, or_false, or_self] at hmem
  rw [hmem]
  decide

/-- Paragraphs behind others. -/
def tailText (ps : List (List Char)) : List Char := ps.flatMap fun p => ['\n', '\n'] ++ p

theorem intercalate_eq_tailText (p : List Char) (ps : List (List Char)) :
    ['\n', '\n'].intercalate (p :: ps) = p ++ tailText ps := by
  induction ps generalizing p with
  | nil => simp [tailText]
  | cons q ps ih =>
    rw [List.intercalate_cons_cons, ih q]
    simp [tailText]

theorem Part.joined {p q : List Char} (hp : Part p) (hq : Part q) :
    Part (p ++ (['\n', '\n'] ++ q)) := by
  obtain ⟨c, p', rfl⟩ := List.exists_cons_of_ne_nil hp.1
  refine ⟨by simp, fun d hd => hp.2.head d hd, fun d hd => hq.2.last d ?_⟩
  rwa [List.getLast?_append_of_ne_nil _ (by simp), List.getLast?_append_of_ne_nil _ hq.1] at hd

/-- A paragraph that is not put to the ones in the buffer is chunked after them. -/
theorem chunksFrom_eq_flush {buffer p : List Char} {ps : List (List Char)}
    (h : maxChunkChars < p.length ∨
      maxChunkChars < (strip (buffer ++ (['\n', '\n'] ++ p))).length) (hbuffer : buffer ≠ []) :
    chunksFrom buffer (p :: ps) = flush buffer ++ chunksFrom [] (p :: ps) := by
  rw [chunksFrom, chunksFrom]
  split
  · rfl
  · rename_i hshort
    have hlong := h.resolve_left hshort
    simp only [if_true]
    rw [if_neg (by omega), if_pos (by omega)]

/-- Windows behind a gap between paragraphs. -/
theorem windowed_gap {pre post : List Char} {windows : List (Nat × Nat)}
    {chunks : List (List Char)}
    (h : ChunkWindows (pre ++ ['\n', '\n'] ++ post) (pre ++ ['\n', '\n']).length
      (pre ++ ['\n', '\n'] ++ post).length windows chunks) :
    ChunkWindows (pre ++ (['\n', '\n'] ++ post)) pre.length
      (pre ++ (['\n', '\n'] ++ post)).length windows chunks := by
  rw [List.append_assoc, List.length_append] at h
  exact (windowed_blank (blankIn_gap pre post)).append h (by simp) (by simp)

/-- The chunks from a buffer and the paragraphs behind it, and from an empty one. -/
structure TailWindowed (ps : List (List Char)) : Prop where
  buffered : ∀ buffer pre, Part buffer → buffer.length ≤ maxChunkChars →
    ∃ windows, ChunkWindows (pre ++ (buffer ++ tailText ps)) pre.length
      (pre ++ (buffer ++ tailText ps)).length windows (chunksFrom buffer ps)
  empty : ∀ pre, ∃ windows, ChunkWindows (pre ++ tailText ps) pre.length
    (pre ++ tailText ps).length windows (chunksFrom [] ps)

/-- A paragraph with nothing in the buffer. -/
theorem TailWindowed.first {p : List Char} {ps : List (List Char)} (h : TailWindowed ps)
    (hp : Part p) (pre : List Char) :
    ∃ windows, ChunkWindows (pre ++ (p ++ tailText ps)) pre.length
      (pre ++ (p ++ tailText ps)).length windows (chunksFrom [] (p :: ps)) := by
  rw [chunksFrom]
  split
  · obtain ⟨long, hlong, -⟩ := splitLongFrom_windowed p 0
    obtain ⟨shifted, hshifted⟩ := windowed_part pre (tailText ps) hlong
    obtain ⟨windows, hwindows⟩ := h.empty (pre ++ p)
    rw [List.append_assoc, List.length_append] at hwindows
    exact ⟨_, hshifted.append hwindows (by omega) (by simp)⟩
  · rename_i hshort
    rw [if_pos rfl, if_pos (by omega)]
    exact h.buffered p pre hp (by omega)

theorem tailWindowed (ps : List (List Char)) (hps : ∀ p ∈ ps, Part p) : TailWindowed ps := by
  induction ps with
  | nil =>
    constructor
    · intro buffer pre hbuffer hlength
      obtain ⟨windows, hwindows⟩ := flush_windowed pre (tailText []) hbuffer hlength
      refine ⟨windows, ?_⟩
      have hend : (pre ++ (buffer ++ tailText [])).length = pre.length + buffer.length := by
        simp [tailText]
      rw [hend]
      exact hwindows
    · exact fun pre => ⟨[], windowed_blank fun i c hlo hhi _ => by
        simp only [tailText, List.flatMap_nil, List.append_nil] at hhi
        omega⟩
  | cons p ps ih =>
    have ih := ih fun q hq => hps q (List.mem_cons_of_mem p hq)
    have hp := hps p List.mem_cons_self
    have htail : tailText (p :: ps) = ['\n', '\n'] ++ (p ++ tailText ps) := by
      simp [tailText]
    have hgap (pre : List Char) : ∃ windows, ChunkWindows (pre ++ tailText (p :: ps)) pre.length
        (pre ++ tailText (p :: ps)).length windows (chunksFrom [] (p :: ps)) := by
      obtain ⟨windows, hwindows⟩ := ih.first hp (pre ++ ['\n', '\n'])
      rw [htail]
      exact ⟨windows, windowed_gap hwindows⟩
    refine ⟨fun buffer pre hbuffer hlength => ?_, hgap⟩
    by_cases happart : maxChunkChars < p.length ∨
        maxChunkChars < (strip (buffer ++ (['\n', '\n'] ++ p))).length
    · obtain ⟨first, hfirst⟩ := flush_windowed pre (tailText (p :: ps)) hbuffer hlength
      obtain ⟨windows, hwindows⟩ := hgap (pre ++ buffer)
      rw [List.append_assoc, List.length_append] at hwindows
      rw [chunksFrom_eq_flush happart hbuffer.1]
      exact ⟨_, hfirst.append hwindows (by omega) (by simp)⟩
    · rw [not_or, (hbuffer.joined hp).2.strip_eq] at happart
      obtain ⟨windows, hwindows⟩ := ih.buffered (buffer ++ (['\n', '\n'] ++ p)) pre
        (hbuffer.joined hp) (by omega)
      rw [chunksFrom, if_neg happart.1, if_neg hbuffer.1, (hbuffer.joined hp).2.strip_eq,
        if_pos (by omega), htail]
      rw [List.append_assoc buffer, List.append_assoc] at hwindows
      exact ⟨windows, hwindows⟩

/-- The non-blank characters, in their order, are the same. -/
theorem filter_squeeze (s : List Char) :
    (squeeze s).filter (!isSpace ·) = s.filter (!isSpace ·) := by
  have hgo : ∀ (s : List Char) (run : Nat),
      (squeezeFrom run s).filter (!isSpace ·) = s.filter (!isSpace ·) := by
    intro s
    induction s with
    | nil => exact fun _ => rfl
    | cons c s ih =>
      intro run
      rw [squeezeFrom]
      split
      · rename_i hc
        subst hc
        have hspace : isSpace '\n' = true := by decide
        split
        · simp [hspace, ih]
        · simp [hspace, ih]
      · rw [List.filter_cons, List.filter_cons, ih]
  exact hgo s 0

/-- **Chunking loses no text.** -/
theorem splitText_windowed (text : List Char) :
    (∃ windows, ChunkWindows (squeeze (normalize text)) 0 (squeeze (normalize text)).length windows
      (splitText text)) ∧
    (squeeze (normalize text)).filter (!isSpace ·) = (normalize text).filter (!isSpace ·) := by
  refine ⟨?_, filter_squeeze _⟩
  rw [splitText]
  split
  · rename_i hnil
    rw [hnil]
    exact ⟨[], windowed_blank fun i c _ hhi _ => absurd hhi (Nat.not_lt_zero i)⟩
  · rename_i hne
    obtain ⟨heq, hparts⟩ := paragraphs_normalize hne
    have hsqueeze := intercalate_splitBlank false (normalize text)
    rw [← heq] at hsqueeze
    cases hps : paragraphs (normalize text) with
    | nil => exact absurd (heq.symm.trans hps) (splitBlank_ne_nil _ _)
    | cons p ps =>
      rw [hps, intercalate_eq_tailText] at hsqueeze
      rw [hps] at hparts
      have htail := tailWindowed ps fun q hq => hparts q (List.mem_cons_of_mem p hq)
      obtain ⟨windows, hwindows⟩ := htail.first (hparts p List.mem_cons_self) []
      rw [List.nil_append, hsqueeze] at hwindows
      exact ⟨windows, hwindows⟩

/-- Two blank lines become one, and the chunk is no window of the normalised text. -/
theorem not_windows_of_normalize :
    ¬∃ windows, ChunkWindows (normalize "a\n\n\nb".toList) 0
      (normalize "a\n\n\nb".toList).length windows (splitText "a\n\n\nb".toList) := by
  rintro ⟨windows, h⟩
  have hchunks : splitText "a\n\n\nb".toList = ["a\n\nb".toList] := by decide +kernel
  have hmatched := h.matched
  rw [hchunks] at hmatched
  cases hmatched with
  | @cons w _ _ _ hshown _ =>
    have hwindow : slice (normalize "a\n\n\nb".toList) w <:+: normalize "a\n\n\nb".toList :=
      (List.drop_suffix _ _).isInfix.trans (List.take_prefix _ _).isInfix
    have hchunk : "a\n\nb".toList <:+: normalize "a\n\n\nb".toList := by
      rw [hshown.1]
      exact (infix_strip _).trans hwindow
    exact absurd hchunk (by decide +kernel)

end NeuralHub.Knowledge
