/-
NeuralHub.Lib.Text — the string functions of Python that this tree reads.

Strings are lists of characters here. `isSpace` is `str.isspace` of one
character and decides `strip`, `lstrip` and `split`; it is the list of
the Unicode white space characters and the four ASCII separators, which
Python counts as white space as well.

`lower` is exact on every character that has an ASCII letter in its lower
case; these are the ASCII capitals, the Kelvin sign and the dotted capital
I. The other capitals are left as they are, so a lowered text is an ASCII
text in Python if and only if it is the same ASCII text here.

`parseInt` is `int` of a text; it reads the decimal digits of every script.

`shlexSplit` is `shlex.split` in POSIX mode without comments. It fails on
an open quotation and on a backslash at the end.
-/
import Mathlib.Data.List.DropRight

namespace NeuralHub.Lib.Text

/-! ## White space -/

def isSpace (c : Char) : Bool :=
  let n := c.toNat
  (0x09 ≤ n && n ≤ 0x0d) || (0x1c ≤ n && n ≤ 0x20) || n == 0x85 || n == 0xa0 || n == 0x1680 ||
    (0x2000 ≤ n && n ≤ 0x200a) || n == 0x2028 || n == 0x2029 || n == 0x202f || n == 0x205f ||
    n == 0x3000

def lstrip (s : List Char) : List Char := s.dropWhile isSpace

def rstrip (s : List Char) : List Char := (s.reverse.dropWhile isSpace).reverse

def strip (s : List Char) : List Char := rstrip (lstrip s)

theorem lstrip_append {c : Char} (hc : isSpace c = false) (xs ys : List Char) :
    lstrip (xs ++ c :: ys) = lstrip xs ++ c :: ys := by
  induction xs with
  | nil => simp [lstrip, hc]
  | cons x xs ih =>
    rw [List.cons_append, lstrip, lstrip, List.dropWhile_cons, List.dropWhile_cons]
    split
    · exact ih
    · rfl

theorem rstrip_append {c : Char} (hc : isSpace c = false) (xs ys : List Char) :
    rstrip (xs ++ c :: ys) = xs ++ c :: rstrip ys := by
  have hstrip := lstrip_append hc ys.reverse xs.reverse
  rw [lstrip, lstrip] at hstrip
  have hreverse : (xs ++ c :: ys).reverse = ys.reverse ++ c :: xs.reverse := by simp
  rw [rstrip, hreverse, hstrip]
  simp [rstrip]

/-- Of a text around two characters that are no white space, only the ends are stripped. -/
theorem strip_between {a b : Char} (ha : isSpace a = false) (hb : isSpace b = false)
    (xs ys zs : List Char) :
    strip (xs ++ a :: ys ++ b :: zs) = lstrip xs ++ a :: ys ++ b :: rstrip zs := by
  rw [strip, List.append_assoc, List.cons_append, lstrip_append ha, ← List.cons_append,
    ← List.append_assoc, rstrip_append hb]

theorem rstrip_rstrip (s : List Char) : rstrip (rstrip s) = rstrip s := by
  rw [rstrip, rstrip, List.reverse_reverse, List.dropWhile_idempotent]

/-- What is stripped has nothing left to strip. -/
theorem strip_strip (s : List Char) : strip (strip s) = strip s := by
  rw [strip, strip]
  cases h : lstrip s with
  | nil => rfl
  | cons c rest =>
    have hc : isSpace c = false := by
      have hhead := List.head?_dropWhile_not isSpace s
      rw [lstrip] at h
      simpa [h] using hhead
    have hleft : rstrip (c :: rest) = c :: rstrip rest := rstrip_append hc [] rest
    rw [hleft, show lstrip (c :: rstrip rest) = c :: rstrip rest from lstrip_append hc [] _,
      show rstrip (c :: rstrip rest) = c :: rstrip (rstrip rest) from rstrip_append hc [] _,
      rstrip_rstrip]

theorem strip_cons_space {c : Char} (hc : isSpace c = true) (s : List Char) :
    strip (c :: s) = strip s := by
  rw [strip, lstrip, List.dropWhile_cons_of_pos hc]
  rfl

theorem strip_append_space (s : List Char) {c : Char} (hc : isSpace c = true) :
    strip (s ++ [c]) = strip s := by
  rw [strip, strip, lstrip, lstrip, List.dropWhile_append]
  split
  · rename_i hblank
    rw [List.isEmpty_iff.mp hblank, List.dropWhile_cons_of_pos hc]
    rfl
  · rw [rstrip, rstrip, List.reverse_append, List.reverse_singleton, List.singleton_append,
      List.dropWhile_cons_of_pos hc]

/-- What white space at the ends does not change is not changed by stripping. -/
theorem eq_strip_of_space {β : Type} {f : List Char → β}
    (hleft : ∀ c s, isSpace c = true → f (c :: s) = f s)
    (hright : ∀ s c, isSpace c = true → f (s ++ [c]) = f s) (s : List Char) :
    f (strip s) = f s := by
  have hl : ∀ s, f (lstrip s) = f s := by
    intro s
    induction s with
    | nil => rfl
    | cons c s ih =>
      rw [lstrip, List.dropWhile_cons]
      split
      · rename_i hc
        exact ih.trans (hleft c s hc).symm
      · rfl
  have hr : ∀ s : List Char, f (rstrip s.reverse) = f s.reverse := by
    intro s
    induction s with
    | nil => rfl
    | cons c s ih =>
      rw [rstrip, List.reverse_reverse, List.dropWhile_cons]
      split
      · rename_i hc
        rw [List.reverse_cons, hright _ c hc, ← ih, rstrip, List.reverse_reverse]
      · rfl
  have hrstrip := hr (lstrip s).reverse
  rw [List.reverse_reverse] at hrstrip
  exact hrstrip.trans (hl s)

theorem strip_eq_nil_iff {s : List Char} : strip s = [] ↔ ∀ c ∈ s, isSpace c = true := by
  have hl : lstrip s = [] ↔ ∀ c ∈ s, isSpace c = true := List.dropWhile_eq_nil_iff
  rw [← hl, strip]
  cases h : lstrip s with
  | nil => exact iff_of_true rfl rfl
  | cons c rest =>
    have hc : isSpace c = false := by
      have hhead := List.head?_dropWhile_not isSpace s
      rw [lstrip] at h
      simpa [h] using hhead
    have hright : rstrip (c :: rest) = c :: rstrip rest := rstrip_append hc [] rest
    rw [hright]
    exact iff_of_false (List.cons_ne_nil _ _) (List.cons_ne_nil _ _)

theorem length_lstrip_le (s : List Char) : (lstrip s).length ≤ s.length :=
  (List.dropWhile_sublist _).length_le

theorem length_strip_le (s : List Char) : (strip s).length ≤ s.length := by
  have hright := (List.dropWhile_sublist (p := isSpace) (l := (lstrip s).reverse)).length_le
  rw [List.length_reverse] at hright
  rw [strip, rstrip, List.length_reverse]
  exact Nat.le_trans hright (length_lstrip_le s)

/-- `str.split()`: the words between runs of white space. -/
def splitWords (word : List Char) : List Char → List (List Char)
  | [] => if word = [] then [] else [word]
  | c :: rest =>
    if isSpace c then
      if word = [] then splitWords [] rest else word :: splitWords [] rest
    else splitWords (word ++ [c]) rest

def split (s : List Char) : List (List Char) := splitWords [] s

/-! ## Lines -/

/-- `"\n".join(lines) + "\n"`. -/
def joinLines (lines : List (List Char)) : List Char := ['\n'].intercalate lines ++ ['\n']

/-- The lines of a text file; what follows the last line feed is a line when there is any. -/
def fileLines (s : List Char) : List (List Char) :=
  let lines := s.splitOn '\n'
  if lines.getLast? = some [] then lines.dropLast else lines

theorem splitOn_joinLines {lines : List (List Char)} (h : ∀ line ∈ lines, '\n' ∉ line)
    (hne : lines ≠ []) : (joinLines lines).splitOn '\n' = lines ++ [[]] := by
  induction lines with
  | nil => exact absurd rfl hne
  | cons line rest ih =>
    obtain ⟨hline, hrest⟩ := List.forall_mem_cons.mp h
    cases rest with
    | nil => simpa [joinLines] using List.splitOn_append_cons_self_of_not_mem hline []
    | cons next rest =>
      have hjoin : joinLines (line :: next :: rest) = line ++ '\n' :: joinLines (next :: rest) := by
        simp [joinLines, List.intercalate_cons_cons]
      rw [hjoin, List.splitOn_append_cons_self_of_not_mem hline, ih hrest (by simp)]
      rfl

/-- What is written line by line is read line by line. -/
theorem fileLines_joinLines {lines : List (List Char)} (h : ∀ line ∈ lines, '\n' ∉ line)
    (hne : lines ≠ []) : fileLines (joinLines lines) = lines := by
  simp [fileLines, splitOn_joinLines h hne]

/-! ## Characters -/

/-- `str.strip(chars)`. -/
def stripChars (chars s : List Char) : List Char :=
  ((s.dropWhile chars.contains).reverse.dropWhile chars.contains).reverse

/-- `str.rsplit(c, maxsplit=1)[-1]`. -/
def afterLast (c : Char) (s : List Char) : List Char := (s.reverse.takeWhile (· != c)).reverse

def lowerChar (c : Char) : List Char :=
  if c.toNat = 0x212a then ['k']
  else if c.toNat = 0x130 then ['i', Char.ofNat 0x307]
  else [c.toLower]

def lower (s : List Char) : List Char := s.flatMap lowerChar

/-! ## Numbers -/

/-- The zeros of Unicode's decimal digits; the nine others of a script follow its zero. -/
def decimalZeros : List Nat :=
  0x30 :: [0x660, 0x6f0, 0x7c0, 0x966, 0x9e6, 0xa66, 0xae6, 0xb66, 0xbe6, 0xc66, 0xce6, 0xd66,
    0xde6, 0xe50, 0xed0, 0xf20, 0x1040, 0x1090, 0x17e0, 0x1810, 0x1946, 0x19d0, 0x1a80, 0x1a90, 0x1b50,
    0x1bb0, 0x1c40, 0x1c50, 0xa620, 0xa8d0, 0xa900, 0xa9d0, 0xa9f0, 0xaa50, 0xabf0, 0xff10, 0x104a0,
    0x10d30, 0x11066, 0x110f0, 0x11136, 0x111d0, 0x112f0, 0x11450, 0x114d0, 0x11650, 0x116c0,
    0x11730, 0x118e0, 0x11950, 0x11c50, 0x11d50, 0x11da0, 0x11f50, 0x16a60, 0x16ac0, 0x16b50,
    0x1d7ce, 0x1d7d8, 0x1d7e2, 0x1d7ec, 0x1d7f6, 0x1e140, 0x1e2f0, 0x1e4f0, 0x1e950, 0x1fbf0]

/-- `unicodedata.decimal`. -/
def digitValue (c : Char) : Option Nat :=
  (decimalZeros.find? fun z => z ≤ c.toNat && c.toNat < z + 10).map (c.toNat - ·)

/-- What `int` takes for white space; the four ASCII separators are none. -/
def numberSpace (c : Char) : Bool := isSpace c && !(0x1c ≤ c.toNat && c.toNat ≤ 0x1f)

/-- The digits behind the first one; single underscores may stand between digits. -/
def readDigits : (value : Nat) → List Char → Option Nat
  | value, [] => some value
  | value, '_' :: c :: rest => (digitValue c).bind fun d => readDigits (10 * value + d) rest
  | value, c :: rest => (digitValue c).bind fun d => readDigits (10 * value + d) rest

def readNumber : List Char → Option Nat
  | [] => none
  | c :: rest => (digitValue c).bind fun d => readDigits d rest

def trimNumber (s : List Char) : List Char :=
  ((s.dropWhile numberSpace).reverse.dropWhile numberSpace).reverse

/-- `int(text)`, without the interpreter's limit on the number of digits. -/
def parseInt (s : List Char) : Option Int :=
  match trimNumber s with
  | '-' :: rest => (readNumber rest).map fun n => -Int.ofNat n
  | '+' :: rest => (readNumber rest).map Int.ofNat
  | text => (readNumber text).map Int.ofNat

theorem digitValue_of_isDigit {c : Char} (h : c.isDigit = true) :
    digitValue c = some (c.toNat - 48) := by
  have hrange : 48 ≤ c.toNat ∧ c.toNat ≤ 57 := Char.isDigit_iff_toNat.mp h
  have hfirst : (decide (48 ≤ c.toNat) && decide (c.toNat < 48 + 10)) = true := by
    simp only [Bool.and_eq_true, decide_eq_true_eq]
    omega
  simp only [digitValue, decimalZeros, List.find?_cons, hfirst, Option.map_some]

theorem readDigits_of_isDigit {s : List Char} (h : ∀ c ∈ s, c.isDigit = true) (value : Nat) :
    readDigits value s = some (Nat.ofDigitChars 10 s value) := by
  induction s generalizing value with
  | nil => rfl
  | cons c rest ih =>
    obtain ⟨hc, hrest⟩ := List.forall_mem_cons.mp h
    have hne : c ≠ '_' := by
      rintro rfl
      exact absurd hc (by decide)
    rw [readDigits, digitValue_of_isDigit hc, Option.bind_some, ih hrest, Nat.ofDigitChars_cons]
    · rfl
    · exact fun _ _ heq => absurd heq hne

theorem readNumber_toDigits (n : Nat) : readNumber (Nat.toDigits 10 n) = some n := by
  have hdigits : ∀ c ∈ Nat.toDigits 10 n, c.isDigit = true := fun c hc =>
    Nat.isDigit_of_mem_toDigits (by decide) (by decide) hc
  have hvalue := Nat.ofDigitChars_ten_toDigits (n := n)
  cases htext : Nat.toDigits 10 n with
  | nil => exact absurd htext Nat.toDigits_ne_nil
  | cons c rest =>
    rw [htext] at hdigits hvalue
    obtain ⟨hc, hrest⟩ := List.forall_mem_cons.mp hdigits
    rw [readNumber, digitValue_of_isDigit hc, Option.bind_some, readDigits_of_isDigit hrest, ← hvalue,
      Nat.ofDigitChars_cons]
    simp

theorem trimNumber_eq_self {s : List Char} (h : ∀ c ∈ s, numberSpace c = false) :
    trimNumber s = s := by
  have hkeep : ∀ t : List Char, (∀ c ∈ t, numberSpace c = false) → t.dropWhile numberSpace = t := by
    intro t ht
    cases t with
    | nil => rfl
    | cons c t => exact List.dropWhile_cons_of_neg (by simp [ht c List.mem_cons_self])
  rw [trimNumber, hkeep s h, hkeep s.reverse fun c hc => h c (List.mem_reverse.mp hc), List.reverse_reverse]

/-- `int(str(n))`. -/
theorem parseInt_toString (n : Int) : parseInt (toString n).toList = some n := by
  have hdigit : ∀ (m : Nat) (c : Char), c ∈ Nat.toDigits 10 m → c.isDigit = true := fun m c hc =>
    Nat.isDigit_of_mem_toDigits (by decide) (by decide) hc
  have hspace : ∀ c : Char, c.isDigit = true → numberSpace c = false := by
    intro c hc
    have hrange : 48 ≤ c.toNat ∧ c.toNat ≤ 57 := Char.isDigit_iff_toNat.mp hc
    simp [numberSpace, isSpace]
    omega
  cases n with
  | ofNat m =>
    have htext : (toString (Int.ofNat m)).toList = Nat.toDigits 10 m := Nat.toList_repr
    rw [htext, parseInt, trimNumber_eq_self fun c hc => hspace c (hdigit m c hc)]
    split
    · rename_i rest heq
      exact absurd (hdigit m '-' (heq ▸ List.mem_cons_self)) (by decide)
    · rename_i rest heq
      exact absurd (hdigit m '+' (heq ▸ List.mem_cons_self)) (by decide)
    · rw [readNumber_toDigits]
      rfl
  | negSucc m =>
    have htext : (toString (Int.negSucc m)).toList = '-' :: Nat.toDigits 10 (m + 1) := by
      rw [Int.toString_eq_repr, Int.repr, String.toList_append, Nat.toList_repr]
      rfl
    rw [htext, parseInt, trimNumber_eq_self]
    · show (readNumber (Nat.toDigits 10 (m + 1))).map (fun n => -Int.ofNat n) = some (Int.negSucc m)
      rw [readNumber_toDigits]
      rfl
    · intro c hc
      rcases List.mem_cons.mp hc with rfl | hc
      · decide
      · exact hspace c (hdigit (m + 1) c hc)

/-! ## `shlex.split` -/

/-- The states of `shlex.read_token`: between words, in a word, behind an
opening quote, and behind a backslash that stands in a word or in the
quotation it names. -/
inductive ShlexState
  | blank
  | word
  | quoted (quote : Char)
  | escaped (within : Option Char)
  deriving DecidableEq, Repr

def shlexSpace (c : Char) : Bool := c == ' ' || c == '\t' || c == '\r' || c == '\n'

def shlexQuote (c : Char) : Bool := c == '\'' || c == '"'

/-- `token` is the word read so far; `quoted` says that a quotation
belongs to it, so that it counts even when it is empty. -/
def shlexFrom : ShlexState → (token : List Char) → (quoted : Bool) → List Char →
    Option (List (List Char))
  | .blank, _, _, [] => some []
  | .blank, _, _, c :: rest =>
    if shlexSpace c then shlexFrom .blank [] false rest
    else if c = '\\' then shlexFrom (.escaped none) [] false rest
    else if shlexQuote c then shlexFrom (.quoted c) [] true rest
    else shlexFrom .word [c] false rest
  | .word, token, quoted, [] => some (if token = [] ∧ quoted = false then [] else [token])
  | .word, token, quoted, c :: rest =>
    if shlexSpace c then
      if token = [] ∧ quoted = false then shlexFrom .blank [] false rest
      else (shlexFrom .blank [] false rest).map (token :: ·)
    else if shlexQuote c then shlexFrom (.quoted c) token true rest
    else if c = '\\' then shlexFrom (.escaped none) token quoted rest
    else shlexFrom .word (token ++ [c]) quoted rest
  | .quoted _, _, _, [] => none
  | .quoted quote, token, quoted, c :: rest =>
    if c = quote then shlexFrom .word token quoted rest
    else if c = '\\' ∧ quote = '"' then shlexFrom (.escaped (some quote)) token quoted rest
    else shlexFrom (.quoted quote) (token ++ [c]) quoted rest
  | .escaped _, _, _, [] => none
  | .escaped none, token, quoted, c :: rest => shlexFrom .word (token ++ [c]) quoted rest
  | .escaped (some quote), token, quoted, c :: rest =>
    -- in a quotation only the quote and the backslash can be escaped
    let token := if c ≠ '\\' ∧ c ≠ quote then token ++ ['\\'] else token
    shlexFrom (.quoted quote) (token ++ [c]) quoted rest

def shlexSplit (s : List Char) : Option (List (List Char)) := shlexFrom .blank [] false s

example : shlexSplit "a 'b c'\"\" \"\\x\"\\ ".toList =
    some ["a".toList, "b c".toList, "\\x ".toList] := by decide

end NeuralHub.Lib.Text
