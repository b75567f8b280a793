/-
NeuralHub.Lib.JsonReader — `json.loads`.

`readValue` is a recursive descent with fuel for the nesting; the length
of the text is always enough. Of two members of an object with one key
the value of the last one stands in the place of the first, as in a
dictionary that is filled from left to right (`Members.dict`).

A `Json` can be a value that no dictionary and no float is: with a key
twice, or with a word for a float that is no number. `Json.valid` excludes
these; for all others `NeuralHub.Lib.JsonLayout` has the round trip.

A float keeps the text it was written with, and a string that escapes half
a surrogate pair is refused, since no `Char` stands for it.
-/
import NeuralHub.Lib.Json

namespace NeuralHub.Lib

/-! ## Characters of strings -/

def hexDigit? (c : Char) : Option Nat :=
  if c.isDigit then some (c.toNat - 48)
  else if 'a' ≤ c ∧ c ≤ 'f' then some (c.toNat - 87)
  else if 'A' ≤ c ∧ c ≤ 'F' then some (c.toNat - 55)
  else none

/-- The four digits behind a `\u`. -/
def readHex : List Char → Option (Nat × List Char)
  | a :: b :: c :: d :: rest => do
    let a ← hexDigit? a
    let b ← hexDigit? b
    let c ← hexDigit? c
    let d ← hexDigit? d
    return (((a * 16 + b) * 16 + c) * 16 + d, rest)
  | _ => none

/-- The low half of a surrogate pair, and the character of the pair. -/
def readLowSurrogate (high : Nat) : List Char → Option (Char × List Char)
  | '\\' :: 'u' :: s =>
    match readHex s with
    | some (low, rest) =>
      if 0xdc00 ≤ low ∧ low < 0xe000 then
        some (Char.ofNat (0x10000 + (high - 0xd800) * 0x400 + (low - 0xdc00)), rest)
      else none
    | none => none
  | _ => none

def unescapes : List (Char × Char) := ('/', '/') :: escapes.map Prod.swap

/-- One character of a string; a control character has to be escaped. -/
def readStringChar : List Char → Option (Char × List Char)
  | '\\' :: 'u' :: s =>
    match readHex s with
    | some (code, rest) =>
      if 0xd800 ≤ code ∧ code < 0xdc00 then readLowSurrogate code rest
      else if 0xdc00 ≤ code ∧ code < 0xe000 then none
      else some (Char.ofNat code, rest)
    | none => none
  | '\\' :: letter :: rest => (unescapes.lookup letter).map fun c => (c, rest)
  | c :: rest => if c.toNat < 32 then none else some (c, rest)
  | [] => none

/-- A string behind its opening quote. -/
def readString : Nat → List Char → Option (List Char × List Char)
  | _, '"' :: rest => some ([], rest)
  | 0, _ => none
  | fuel + 1, s => do
    let (c, rest) ← readStringChar s
    let (cs, rest) ← readString fuel rest
    return (c :: cs, rest)

/-! ## Numbers and words -/

/-- Digits, at least one. -/
def dropDigits (s : List Char) : Option (List Char) :=
  if (s.takeWhile Char.isDigit).isEmpty then none else some (s.dropWhile Char.isDigit)

/-- An exponent or nothing, up to the end. -/
def isExponent : List Char → Bool
  | [] => true
  | 'e' :: '+' :: s => dropDigits s == some []
  | 'e' :: '-' :: s => dropDigits s == some []
  | 'e' :: s => dropDigits s == some []
  | _ => false

/-- A fraction or nothing, and then an exponent. -/
def isFraction : List Char → Bool
  | '.' :: s =>
    match dropDigits s with
    | some rest => isExponent rest
    | none => false
  | s => isExponent s

/-- A number with a fraction or an exponent; the integer part has no leading zero. -/
def isFloat (word : List Char) : Bool :=
  let unsigned := if word.head? = some '-' then word.tail else word
  let whole := unsigned.takeWhile Char.isDigit
  let rest := unsigned.dropWhile Char.isDigit
  !whole.isEmpty && (whole.head? != some '0' || whole.length == 1) && !rest.isEmpty &&
    isFraction rest

/-- The digits of an integer, without leading zeros. -/
def readNat (word : List Char) : Option Nat :=
  if !word.isEmpty && word.all Char.isDigit && (word.head? != some '0' || word.length == 1) then
    some (Nat.ofDigitChars 10 word 0)
  else none

def readInt : List Char → Option Int
  | '-' :: word => (readNat word).map fun n => -(n : Int)
  | word => (readNat word).map fun n => (n : Int)

def lowerExponent (c : Char) : Char := if c = 'E' then 'e' else c

/-- What is not a string, an array or an object. -/
def readWord (word : List Char) : Option Json :=
  if word = ['n', 'u', 'l', 'l'] then some .null
  else if word = ['t', 'r', 'u', 'e'] then some (.bool true)
  else if word = ['f', 'a', 'l', 's', 'e'] then some (.bool false)
  else if word = PyFloat.nan.json then some (.float .nan)
  else if word = PyFloat.inf.json then some (.float .inf)
  else if word = PyFloat.negInf.json then some (.float .negInf)
  else
    match readInt word with
    | some n => some (.int n)
    | none =>
      let word := word.map lowerExponent
      if h : word.all floatChar = true ∧ word.any (fun c => !intChar c) = true then
        if isFloat word then some (.float (.finite ⟨word, h.1, h.2⟩)) else none
      else none

/-! ## Values -/

def spaceChar (c : Char) : Bool := c == ' ' || c == '\t' || c == '\n' || c == '\r'

def skipSpace (s : List Char) : List Char := s.dropWhile spaceChar

/-- A character that can be part of a word; nothing else ends one in a text that is accepted. -/
def wordChar (c : Char) : Bool := c.isAlphanum || c == '-' || c == '+' || c == '.'

def Members.without (key : String) : Members → Members
  | .nil => .nil
  | .cons k v rest => if k = key then rest.without key else .cons k v (rest.without key)

/-- The dictionary of these members. -/
def Members.dict : Members → Members
  | .nil => .nil
  | .cons key value rest =>
    .cons key ((rest.dict.get? key).getD value) (rest.dict.without key)

mutual

def readValue : Nat → List Char → Option (Json × List Char)
  | 0, _ => none
  | fuel + 1, s =>
    match s with
    | '"' :: s => (readString s.length s).map fun x => (.str (String.ofList x.1), x.2)
    | '[' :: s =>
      match skipSpace s with
      | ']' :: rest => some (.arr .nil, rest)
      | s => (readItems fuel s).map fun x => (.arr x.1, x.2)
    | '\x7b' :: s =>
      match skipSpace s with
      | '\x7d' :: rest => some (.obj .nil, rest)
      | s => (readMembers fuel s).map fun x => (.obj x.1.dict, x.2)
    | s => (readWord (s.takeWhile wordChar)).map fun v => (v, s.dropWhile wordChar)

def readItems : Nat → List Char → Option (Items × List Char)
  | 0, _ => none
  | fuel + 1, s =>
    match readValue fuel s with
    | some (item, rest) =>
      match skipSpace rest with
      | ']' :: rest => some (.cons item .nil, rest)
      | ',' :: rest => (readItems fuel (skipSpace rest)).map fun x => (.cons item x.1, x.2)
      | _ => none
    | none => none

def readMembers : Nat → List Char → Option (Members × List Char)
  | 0, _ => none
  | fuel + 1, s =>
    match s with
    | '"' :: s =>
      match readString s.length s with
      | some (key, rest) =>
        match skipSpace rest with
        | ':' :: rest =>
          match readValue fuel (skipSpace rest) with
          | some (value, rest) =>
            match skipSpace rest with
            | '\x7d' :: rest => some (.cons (String.ofList key) value .nil, rest)
            | ',' :: rest =>
              (readMembers fuel (skipSpace rest)).map fun x =>
                (.cons (String.ofList key) value x.1, x.2)
            | _ => none
          | none => none
        | _ => none
      | none => none
    | _ => none

end

/-- `json.loads`; `none` stands for `JSONDecodeError`. -/
def loads (s : List Char) : Option Json :=
  match readValue (s.length + 1) (skipSpace s) with
  | some (value, rest) => if skipSpace rest = [] then some value else none
  | none => none

/-! ## Values that can be read back -/

def Members.keys (members : Members) : List String := members.toList.map Prod.fst

mutual

/-- Every float is one and no object has a key twice. -/
def Json.valid : Json → Bool
  | .float (.finite x) => isFloat x.text
  | .arr items => items.valid
  | .obj members => members.valid
  | _ => true

def Items.valid : Items → Bool
  | .nil => true
  | .cons item rest => item.valid && rest.valid

def Members.valid : Members → Bool
  | .nil => true
  | .cons key value rest => !rest.keys.contains key && value.valid && rest.valid

end

@[simp] theorem Members.keys_cons (key : String) (value : Json) (rest : Members) :
    (Members.cons key value rest).keys = key :: rest.keys := rfl

@[simp] theorem Members.keys_nil : Members.nil.keys = [] := rfl

@[simp] theorem Members.get?_nil (key : String) : Members.nil.get? key = none := rfl

theorem Members.get?_cons (key name : String) (value : Json) (rest : Members) :
    (Members.cons name value rest).get? key =
      (rest.get? key).or (if name = key then some value else none) := rfl

theorem Members.without_cons (key name : String) (value : Json) (rest : Members) :
    (Members.cons name value rest).without key =
      if name = key then rest.without key else .cons name value (rest.without key) := rfl

theorem Members.dict_cons (key : String) (value : Json) (rest : Members) :
    (Members.cons key value rest).dict =
      .cons key ((rest.dict.get? key).getD value) (rest.dict.without key) := rfl

@[simp] theorem Members.valid_nil : Members.nil.valid = true := rfl

theorem Members.valid_cons (key : String) (value : Json) (rest : Members) :
    (Members.cons key value rest).valid =
      (!rest.keys.contains key && value.valid && rest.valid) := rfl

theorem Members.get?_eq_none {key : String} : ∀ members : Members, key ∉ members.keys →
    members.get? key = none
  | .nil, _ => rfl
  | .cons k v rest, h => by
      rw [keys_cons, List.mem_cons, not_or] at h
      rw [get?_cons, rest.get?_eq_none h.2, if_neg (Ne.symm h.1)]
      rfl

theorem Members.without_eq {key : String} : ∀ members : Members, key ∉ members.keys →
    members.without key = members
  | .nil, _ => rfl
  | .cons k v rest, h => by
      rw [keys_cons, List.mem_cons, not_or] at h
      rw [without_cons, if_neg (Ne.symm h.1), rest.without_eq h.2]

/-- A dictionary is read as it is. -/
theorem Members.dict_eq : ∀ members : Members, members.valid = true → members.dict = members
  | .nil, _ => rfl
  | .cons key value rest, h => by
      simp only [valid_cons, Bool.and_eq_true, Bool.not_eq_true', List.contains_eq_mem,
        decide_eq_false_iff_not] at h
      rw [dict_cons, rest.dict_eq h.2, rest.get?_eq_none h.1.1, rest.without_eq h.1.1]
      rfl

/-- A dictionary of JSON values. -/
structure JsonDict where
  members : Members
  valid : members.valid = true
  deriving DecidableEq, Repr

def JsonDict.empty : JsonDict := ⟨.nil, rfl⟩

/-- An object that `json.loads` has made is a dictionary. -/
def Members.toDict? (members : Members) : Option JsonDict :=
  if h : members.valid = true then some ⟨members, h⟩ else none

@[simp] theorem JsonDict.toDict?_members (dict : JsonDict) :
    dict.members.toDict? = some dict := by
  rw [Members.toDict?, dif_pos dict.valid]

/-! ## Strings -/

theorem hexDigit?_digitChar : ∀ d, d < 16 → hexDigit? (Nat.digitChar d) = some d := by decide

theorem unescapes_letter {c letter : Char} (h : escapes.lookup c = some letter) :
    letter ≠ 'u' ∧ unescapes.lookup letter = some c := by
  have hall : ∀ x ∈ escapes, x.2 ≠ 'u' ∧ unescapes.lookup x.2 = some x.1 := by decide
  obtain ⟨pre, post, heq, -⟩ := List.lookup_eq_some_iff.mp h
  exact hall (c, letter) (heq ▸ List.mem_append_right pre List.mem_cons_self)

theorem readStringChar_escapeChar (c : Char) (rest : List Char) :
    readStringChar (escapeChar c ++ rest) = some (c, rest) := by
  unfold escapeChar
  split
  · rename_i letter hletter
    obtain ⟨hu, hread⟩ := unescapes_letter hletter
    rw [List.cons_append, List.singleton_append, readStringChar, hread]
    · rfl
    · exact hu
  · rename_i hnone
    split
    · rename_i hlow
      have hhigh : hexDigit? (Nat.digitChar (c.toNat / 16)) = some (c.toNat / 16) :=
        hexDigit?_digitChar _ (by omega)
      have hlast : hexDigit? (Nat.digitChar (c.toNat % 16)) = some (c.toNat % 16) :=
        hexDigit?_digitChar _ (by omega)
      have hzero : hexDigit? '0' = some 0 := by decide
      have hvalue : ((0 * 16 + 0) * 16 + c.toNat / 16) * 16 + c.toNat % 16 = c.toNat := by omega
      have hhex : readHex ('0' :: '0' :: Nat.digitChar (c.toNat / 16) ::
          Nat.digitChar (c.toNat % 16) :: rest) = some (c.toNat, rest) := by
        simp only [readHex, hzero, hhigh, hlast, Option.bind_eq_bind, Option.bind_some, hvalue]
        rfl
      simp only [List.cons_append, List.nil_append, readStringChar, hhex]
      rw [if_neg (by omega), if_neg (by omega), Char.ofNat_toNat]
    · rename_i hprinted
      rw [List.singleton_append, readStringChar.eq_def]
      simp [(escapes_none hnone).2, hprinted]

theorem readString_quoted (cs : List Char) {fuel : Nat} (hfuel : cs.length ≤ fuel)
    (rest : List Char) :
    readString fuel (cs.flatMap escapeChar ++ '"' :: rest) = some (cs, rest) := by
  induction cs generalizing fuel with
  | nil => cases fuel <;> rfl
  | cons c cs ih =>
    obtain ⟨fuel, rfl⟩ := Nat.exists_eq_add_of_lt (Nat.lt_of_lt_of_le (Nat.succ_pos _) hfuel)
    rw [Nat.zero_add] at hfuel ⊢
    have htail := ih (Nat.le_of_succ_le_succ hfuel)
    rw [List.flatMap_cons, List.append_assoc, readString]
    · rw [readStringChar_escapeChar, Option.bind_eq_bind, Option.bind_some]
      dsimp only
      rw [htail]
      rfl
    · intro s heq
      exact escapeChar_ne_quote c _ s heq

theorem length_le_escaped (cs rest : List Char) :
    cs.length ≤ (cs.flatMap escapeChar ++ rest).length := by
  have hone : ∀ c, 1 ≤ (escapeChar c).length := by
    intro c
    unfold escapeChar
    split
    · simp
    · split <;> simp
  induction cs with
  | nil => simp
  | cons c cs ih =>
    have hc := hone c
    simp only [List.flatMap_cons, List.length_append, List.length_cons] at ih ⊢
    omega

/-! ## Numbers -/

/-- No leading zero. -/
theorem head?_toDigits (n : Nat) :
    (Nat.toDigits 10 n).head? ≠ some '0' ∨ (Nat.toDigits 10 n).length = 1 := by
  induction n using Nat.strongRecOn with
  | ind n ih =>
    by_cases hlt : n < 10
    · right
      rw [Nat.toDigits_of_lt_base hlt]
      rfl
    · left
      have hle : 10 ≤ n := by omega
      have hhead : (Nat.toDigits 10 n).head? = (Nat.toDigits 10 (n / 10)).head? := by
        rw [Nat.toDigits_of_base_le (by decide) hle, List.head?_append]
        rcases List.exists_cons_of_ne_nil (Nat.toDigits_ne_nil (b := 10) (n := n / 10)) with
          ⟨c, cs, hcs⟩
        simp [hcs]
      rw [hhead]
      rcases ih (n / 10) (by omega) with hhead | hlength
      · exact hhead
      · by_cases hsmall : n / 10 < 10
        · have hpos : 1 ≤ n / 10 := by omega
          rw [Nat.toDigits_of_lt_base hsmall]
          have hall : ∀ d, d < 10 → 1 ≤ d → [Nat.digitChar d].head? ≠ some '0' := by decide
          exact hall _ hsmall hpos
        · have htwo := (Nat.length_toDigits_le_iff (n := n / 10) (b := 10) (k := 1) (by decide)
            (by decide)).mp (by omega)
          omega

theorem readNat_toDigits (n : Nat) : readNat (Nat.toDigits 10 n) = some n := by
  have hdigits : (Nat.toDigits 10 n).all Char.isDigit = true := by
    rw [List.all_eq_true]
    exact fun c hc => Nat.isDigit_of_mem_toDigits (by decide) (by decide) hc
  have hhead := head?_toDigits n
  have hne : Nat.toDigits 10 n ≠ [] := Nat.toDigits_ne_nil
  unfold readNat
  rw [if_pos (by simpa [hdigits, hne] using hhead), Nat.ofDigitChars_ten_toDigits]

theorem readInt_decimal (n : Int) : readInt (decimal n) = some n := by
  cases n with
  | ofNat m =>
    rw [decimal, readInt, readNat_toDigits]
    · rfl
    · intro word heq
      have hdigit := Nat.isDigit_of_mem_toDigits (b := 10) (n := m) (c := '-') (by decide)
        (by decide) (heq ▸ List.mem_cons_self)
      exact absurd hdigit (by decide)
  | negSucc m =>
    rw [decimal, readInt, readNat_toDigits]
    rfl

/-- Only digits behind an optional sign make an integer. -/
theorem readInt_eq_none {word : List Char} (h : word.any (fun c => !intChar c) = true) :
    readInt word = none := by
  obtain ⟨c, hc, hnot⟩ := List.any_eq_true.mp h
  have hnat : ∀ w : List Char, c ∈ w → readNat w = none := by
    intro w hw
    have hdigit : c.isDigit = false := by
      cases hd : c.isDigit with
      | false => rfl
      | true => simp [intChar, hd] at hnot
    have hall : w.all Char.isDigit = false := by
      rw [List.all_eq_false]
      exact ⟨c, hw, by simp [hdigit]⟩
    simp [readNat, hall]
  unfold readInt
  split
  · rename_i w
    rcases List.mem_cons.mp hc with rfl | hc
    · exact absurd hnot (by decide)
    · rw [hnat _ hc]
      rfl
  · rw [hnat _ hc]
    rfl

/-- A word is no integer, and no other word. -/
theorem readWord_number {word : List Char} (hword : ∀ c ∈ word, floatChar c = true) :
    readWord word =
      match readInt word with
      | some n => some (.int n)
      | none =>
        if h : word.all floatChar = true ∧ word.any (fun c => !intChar c) = true then
          if isFloat word then some (.float (.finite ⟨word, h.1, h.2⟩)) else none
        else none := by
  have hne : ∀ other : List Char, other.all floatChar = false → word ≠ other := by
    rintro other hother rfl
    rw [List.all_eq_true.mpr hword] at hother
    cases hother
  have hmap : word.map lowerExponent = word := by
    refine (List.map_congr_left fun c hc => ?_).trans (List.map_id word)
    have hfloat := hword c hc
    unfold lowerExponent
    split
    · rename_i hE
      rw [hE] at hfloat
      cases hfloat
    · rfl
  unfold readWord
  rw [if_neg (hne _ (by decide)), if_neg (hne _ (by decide)), if_neg (hne _ (by decide)),
    if_neg (hne _ (by decide)), if_neg (hne _ (by decide)), if_neg (hne _ (by decide))]
  simp only [hmap]

theorem readWord_decimal (n : Int) : readWord (decimal n) = some (.int n) := by
  rw [readWord_number (floatChar_decimal n), readInt_decimal]

theorem readWord_float (x : FiniteFloat) (h : isFloat x.text = true) :
    readWord x.text = some (.float (.finite x)) := by
  rw [readWord_number (List.all_eq_true.mp x.chars), readInt_eq_none x.notInt]
  simp only [x.chars, x.notInt, h]
  rfl

/-! ## Words -/

/-- Nothing that may stand behind a word is part of it. -/
def Stops (rest : List Char) : Prop := ∀ c ∈ rest.head?, wordChar c = false

theorem stops_nil : Stops [] := by simp [Stops]

theorem stops_cons {c : Char} (h : wordChar c = false) (rest : List Char) : Stops (c :: rest) := by
  simpa [Stops] using h

theorem wordChar_of_numberChar {c : Char} (h : numberChar c = true) : wordChar c = true := by
  have hletter : ['N', 'a', 'I', 'n', 'f', 'i', 't', 'y'].all wordChar = true := by decide
  unfold numberChar floatChar intChar at h
  rw [Bool.or_eq_true, Bool.or_eq_true, Bool.or_eq_true, Bool.or_eq_true, Bool.or_eq_true] at h
  rcases h with (((((hdigit | hminus) | hdot) | he) | hplus) | hmem)
  · simp [wordChar, Char.isAlphanum, hdigit]
  · rw [beq_iff_eq.mp hminus]
    decide
  · rw [beq_iff_eq.mp hdot]
    decide
  · rw [beq_iff_eq.mp he]
    decide
  · rw [beq_iff_eq.mp hplus]
    decide
  · exact List.all_eq_true.mp hletter c (List.contains_iff_mem.mp hmem)

theorem word_append {word rest : List Char} (hword : ∀ c ∈ word, wordChar c = true)
    (hrest : Stops rest) : (word ++ rest).takeWhile wordChar = word ∧
      (word ++ rest).dropWhile wordChar = rest := by
  have hstop : rest.takeWhile wordChar = [] ∧ rest.dropWhile wordChar = rest := by
    cases rest with
    | nil => exact ⟨rfl, rfl⟩
    | cons c rest =>
      have hc : wordChar c = false := hrest c rfl
      simp [hc]
  rw [List.takeWhile_append_of_pos hword, List.dropWhile_append_of_pos hword, hstop.1, hstop.2,
    List.append_nil]
  exact ⟨rfl, rfl⟩

theorem readValue_word {word rest : List Char} {v : Json} (hne : word ≠ [])
    (hword : ∀ c ∈ word, wordChar c = true) (hrest : Stops rest) (h : readWord word = some v)
    (fuel : Nat) : readValue (fuel + 1) (word ++ rest) = some (v, rest) := by
  obtain ⟨htake, hdrop⟩ := word_append hword hrest
  obtain ⟨c, cs, rfl⟩ := List.exists_cons_of_ne_nil hne
  have hc := hword c List.mem_cons_self
  rw [List.cons_append] at htake hdrop ⊢
  rw [readValue]
  · rw [htake, hdrop, h]
    rfl
  · rintro s heq
    rw [(List.cons.inj heq).1] at hc
    cases hc
  · rintro s heq
    rw [(List.cons.inj heq).1] at hc
    cases hc
  · rintro s heq
    rw [(List.cons.inj heq).1] at hc
    cases hc

theorem wordChar_word {word : List Char} (h : word.all wordChar = true) :
    ∀ c ∈ word, wordChar c = true := List.all_eq_true.mp h

end NeuralHub.Lib
