/-
NeuralHub.Lib.Json — JSON values, the text `json.dumps` prints for them,
and what that text determines.

`Json.text` prints a value whose members stand in the order of printing,
and `Json.sorted` brings the members of every object into the order of
their keys, so that `json.dumps(value, sort_keys=True, ensure_ascii=False)`
is `value.sorted.text`. An `int` is any integer; a finite float is known
by the text of its `repr`, which is all that printing reads.

Two results about the text:

* `Json.text_injective` — different values have different texts, because
  a text says itself where it ends (`text_append_inj`).
* `Json.append_text_injective` — a text and what stands in front of it
  can be told apart at a separator that JSON does not use outside its
  strings. The separator may well occur inside a string of the text, or
  in what stands in front. `scanner` reads a text and keeps whether it is
  inside a string; a text that is read from outside to outside is never
  read from inside to outside (`scan_parity`).
-/
import NeuralHub.Lib.Machine

namespace NeuralHub.Lib

/-! ## Values -/

def intChar (c : Char) : Bool := c.isDigit || c == '-'

def floatChar (c : Char) : Bool := intChar c || c == '.' || c == 'e' || c == '+'

/-- The `repr` of a finite float. -/
structure FiniteFloat where
  text : List Char
  chars : text.all floatChar = true
  notInt : text.any (fun c => !intChar c) = true
  deriving DecidableEq, Repr

inductive PyFloat where
  | nan
  | inf
  | negInf
  | finite (x : FiniteFloat)
  deriving DecidableEq, Repr

mutual

inductive Json where
  | null
  | bool (b : Bool)
  | int (n : Int)
  | float (x : PyFloat)
  | str (s : String)
  | arr (items : Items)
  | obj (members : Members)
  deriving DecidableEq, Repr

inductive Items where
  | nil
  | cons (item : Json) (rest : Items)
  deriving DecidableEq, Repr

inductive Members where
  | nil
  | cons (key : String) (value : Json) (rest : Members)
  deriving DecidableEq, Repr

end

/-- Induction over the members alone. -/
theorem Members.ind {P : Members → Prop} (nil : P .nil)
    (cons : ∀ key value rest, P rest → P (.cons key value rest)) (members : Members) : P members :=
  @Members.rec (fun _ => True) (fun _ => True) P trivial (fun _ => trivial) (fun _ => trivial)
    (fun _ => trivial) (fun _ => trivial) (fun _ _ => trivial) (fun _ _ => trivial) trivial
    (fun _ _ _ _ => trivial) nil (fun key value rest _ ih => cons key value rest ih) members

/-! ## Printing -/

def decimal : Int → List Char
  | .ofNat n => Nat.toDigits 10 n
  | .negSucc n => '-' :: Nat.toDigits 10 (n + 1)

/-- `str` of a float. -/
def PyFloat.repr : PyFloat → List Char
  | .nan => ['n', 'a', 'n']
  | .inf => ['i', 'n', 'f']
  | .negInf => ['-', 'i', 'n', 'f']
  | .finite x => x.text

/-- A float as `json.dumps` writes it. -/
def PyFloat.json : PyFloat → List Char
  | .nan => ['N', 'a', 'N']
  | .inf => ['I', 'n', 'f', 'i', 'n', 'i', 't', 'y']
  | .negInf => ['-', 'I', 'n', 'f', 'i', 'n', 'i', 't', 'y']
  | .finite x => x.text

/-- The characters that are escaped by a letter, and their letters. -/
def escapes : List (Char × Char) :=
  [('"', '"'), ('\\', '\\'), ('\n', 'n'), ('\r', 'r'), ('\t', 't'), ('\x08', 'b'), ('\x0c', 'f')]

def escapeChar (c : Char) : List Char :=
  match escapes.lookup c with
  | some letter => ['\\', letter]
  | none =>
      if c.toNat < 32 then
        ['\\', 'u', '0', '0', Nat.digitChar (c.toNat / 16), Nat.digitChar (c.toNat % 16)]
      else [c]

def quoted (s : String) : List Char := '"' :: (s.toList.flatMap escapeChar ++ ['"'])

mutual

def Json.text : Json → List Char
  | .null => ['n', 'u', 'l', 'l']
  | .bool true => ['t', 'r', 'u', 'e']
  | .bool false => ['f', 'a', 'l', 's', 'e']
  | .int n => decimal n
  | .float x => x.json
  | .str s => quoted s
  | .arr items => '[' :: items.text
  | .obj members => '\x7b' :: members.text

/-- The items of an array with the bracket that ends it. -/
def Items.text : Items → List Char
  | .nil => [']']
  | .cons item rest => item.text ++ rest.restText

def Items.restText : Items → List Char
  | .nil => [']']
  | .cons item rest => ',' :: ' ' :: (item.text ++ rest.restText)

/-- The members of an object with the brace that ends it. -/
def Members.text : Members → List Char
  | .nil => ['\x7d']
  | .cons key value rest => quoted key ++ ':' :: ' ' :: (value.text ++ rest.restText)

def Members.restText : Members → List Char
  | .nil => ['\x7d']
  | .cons key value rest =>
      ',' :: ' ' :: (quoted key ++ ':' :: ' ' :: (value.text ++ rest.restText))

end

/-! ## The order of members -/

/-- Put a member in front of the first one with a greater key. -/
def Members.insert (key : String) (value : Json) : Members → Members
  | .nil => .cons key value .nil
  | .cons k v rest =>
      if key ≤ k then .cons key value (.cons k v rest) else .cons k v (rest.insert key value)

mutual

def Json.sorted : Json → Json
  | .arr items => .arr items.sorted
  | .obj members => .obj members.sorted
  | .null => .null
  | .bool b => .bool b
  | .int n => .int n
  | .float x => .float x
  | .str s => .str s

def Items.sorted : Items → Items
  | .nil => .nil
  | .cons item rest => .cons item.sorted rest.sorted

def Members.sorted : Members → Members
  | .nil => .nil
  | .cons key value rest => rest.sorted.insert key value.sorted

end

/-- `json.dumps(value, sort_keys=True, ensure_ascii=False)`. -/
def Json.dumps (value : Json) : List Char := value.sorted.text

def Members.toList : Members → List (String × Json)
  | .nil => []
  | .cons key value rest => (key, value) :: rest.toList

theorem Members.insert_perm (key : String) (value : Json) : ∀ members : Members,
    (members.insert key value).toList.Perm ((key, value) :: members.toList)
  | .nil => .refl _
  | .cons k v rest => by
      unfold insert
      split
      · exact .refl _
      · exact ((insert_perm key value rest).cons (k, v)).trans (.swap _ _ _)

/-- Sorting keeps the members of an object. -/
theorem Members.sorted_perm : ∀ members : Members,
    members.sorted.toList.Perm (members.toList.map fun m => (m.1, m.2.sorted))
  | .nil => .refl _
  | .cons key value rest =>
      (insert_perm key value.sorted rest.sorted).trans (rest.sorted_perm.cons (key, value.sorted))

/-! ## Looking up a member -/

def Items.toList : Items → List Json
  | .nil => []
  | .cons item rest => item :: rest.toList

/-- `data.get(key)`; of two members with one key the last one counts. -/
def Members.get? : Members → String → Option Json
  | .nil, _ => none
  | .cons name value rest, key => (rest.get? key).or (if name = key then some value else none)

/-- A member that may be absent. -/
def Members.getOr {α : Type} (members : Members) (key : String) (read : Json → Option α)
    (default : α) : Option α :=
  match members.get? key with
  | some value => read value
  | none => some default

theorem Members.getOr_eq {α : Type} (members : Members) (key : String) (read : Json → Option α)
    (default : α) :
    members.getOr key read default =
      match members.get? key with
      | some value => read value
      | none => some default := rfl

/-! ## Numbers -/

/-- The characters of numbers and of the words for floats that are none. -/
def numberChar (c : Char) : Bool :=
  floatChar c || ['N', 'a', 'I', 'n', 'f', 'i', 't', 'y'].contains c

theorem numberChar_of_floatChar {c : Char} (h : floatChar c = true) : numberChar c = true := by
  rw [numberChar, h, Bool.true_or]

/-- `str` of a number. -/
theorem toList_toString (n : Int) : (toString n).toList = decimal n := by
  cases n with
  | ofNat m => exact Nat.toList_repr
  | negSucc m =>
    rw [Int.toString_eq_repr, Int.repr, String.toList_append, Nat.toList_repr]
    rfl

theorem intChar_decimal (n : Int) : ∀ c ∈ decimal n, intChar c = true := by
  have hdigits : ∀ (m : Nat) (c : Char), c ∈ Nat.toDigits 10 m → intChar c = true := by
    intro m c hc
    have hdigit := Nat.isDigit_of_mem_toDigits (by decide) (by decide) hc
    rw [intChar, hdigit, Bool.true_or]
  intro c hc
  cases n with
  | ofNat m => exact hdigits m c hc
  | negSucc m =>
    rcases List.mem_cons.mp hc with rfl | hc
    · rfl
    · exact hdigits (m + 1) c hc

theorem toDigits_injective {m n : Nat} (h : Nat.toDigits 10 m = Nat.toDigits 10 n) : m = n := by
  rw [← Nat.ofDigitChars_ten_toDigits (n := m), h, Nat.ofDigitChars_ten_toDigits]

theorem decimal_injective {m n : Int} (h : decimal m = decimal n) : m = n := by
  -- a text with a sign is no text of digits
  have hsign : ∀ k l : Nat, Nat.toDigits 10 k ≠ '-' :: Nat.toDigits 10 l := by
    intro k l heq
    have hmem : '-' ∈ Nat.toDigits 10 k := heq ▸ List.mem_cons_self
    have hdigit := Nat.isDigit_of_mem_toDigits (by decide) (by decide) hmem
    exact absurd hdigit (by decide)
  cases m with
  | ofNat m =>
    cases n with
    | ofNat n => rw [toDigits_injective h]
    | negSucc n => exact absurd h (hsign m (n + 1))
  | negSucc m =>
    cases n with
    | ofNat n => exact absurd h.symm (hsign n (m + 1))
    | negSucc n =>
      have hsucc := toDigits_injective (List.cons.inj h).2
      rw [Nat.succ.inj hsucc]

theorem numberChar_json (x : PyFloat) : ∀ c ∈ x.json, numberChar c = true := by
  cases x with
  | nan => exact List.all_eq_true.mp (by decide)
  | inf => exact List.all_eq_true.mp (by decide)
  | negInf => exact List.all_eq_true.mp (by decide)
  | finite x =>
    intro c hc
    exact numberChar_of_floatChar (List.all_eq_true.mp x.chars c hc)

/-- A float is not printed as an integer. -/
theorem json_ne_decimal (x : PyFloat) (n : Int) : x.json ≠ decimal n := by
  have hother : ∃ c ∈ x.json, intChar c = false := by
    cases x with
    | nan => exact ⟨'N', by decide, by decide⟩
    | inf => exact ⟨'I', by decide, by decide⟩
    | negInf => exact ⟨'I', by decide, by decide⟩
    | finite x =>
      obtain ⟨c, hc, hnot⟩ := List.any_eq_true.mp x.notInt
      exact ⟨c, hc, by simpa using hnot⟩
  obtain ⟨c, hc, hnot⟩ := hother
  intro heq
  rw [intChar_decimal n c (heq ▸ hc)] at hnot
  cases hnot

theorem FiniteFloat.text_injective {x y : FiniteFloat} (h : x.text = y.text) : x = y := by
  cases x
  cases y
  cases h
  rfl

/-- A word is not the text of a finite float. -/
theorem FiniteFloat.text_ne (x : FiniteFloat) {word : List Char}
    (h : word.all floatChar = false) : x.text ≠ word := by
  intro heq
  have hchars := x.chars
  rw [heq, h] at hchars
  cases hchars

theorem PyFloat.repr_injective {x y : PyFloat} (h : x.repr = y.repr) : x = y := by
  cases x <;> cases y <;> first
    | rfl
    | exact absurd h (by decide)
    | exact absurd h (FiniteFloat.text_ne _ (by decide))
    | exact absurd h.symm (FiniteFloat.text_ne _ (by decide))
    | exact congrArg PyFloat.finite (FiniteFloat.text_injective h)

theorem PyFloat.json_injective {x y : PyFloat} (h : x.json = y.json) : x = y := by
  cases x <;> cases y <;> first
    | rfl
    | exact absurd h (by decide)
    | exact absurd h (FiniteFloat.text_ne _ (by decide))
    | exact absurd h.symm (FiniteFloat.text_ne _ (by decide))
    | exact congrArg PyFloat.finite (FiniteFloat.text_injective h)

/-! ## Strings -/

def hexVal (c : Char) : Nat := if c.isDigit then c.toNat - 48 else c.toNat - 87

theorem hexVal_digitChar : ∀ d, d < 16 → hexVal (Nat.digitChar d) = d := by decide

/-- Read one character of a string and its escape. -/
def readChar : List Char → Option (Char × List Char)
  | '\\' :: 'u' :: _ :: _ :: high :: low :: rest =>
      some (Char.ofNat (16 * hexVal high + hexVal low), rest)
  | '\\' :: letter :: rest =>
      ((escapes.map Prod.swap).lookup letter).map fun c => (c, rest)
  | c :: rest => some (c, rest)
  | [] => none

theorem escapes_letter {c letter : Char} (h : escapes.lookup c = some letter) :
    letter ≠ 'u' ∧ (escapes.map Prod.swap).lookup letter = some c := by
  have hall : ∀ x ∈ escapes, x.2 ≠ 'u' ∧ (escapes.map Prod.swap).lookup x.2 = some x.1 := by decide
  obtain ⟨pre, post, heq, -⟩ := List.lookup_eq_some_iff.mp h
  exact hall (c, letter) (heq ▸ List.mem_append_right pre List.mem_cons_self)

theorem escapes_none {c : Char} (h : escapes.lookup c = none) : c ≠ '"' ∧ c ≠ '\\' := by
  constructor <;> (rintro rfl; exact absurd h (by decide))

theorem readChar_escapeChar (c : Char) (rest : List Char) :
    readChar (escapeChar c ++ rest) = some (c, rest) := by
  unfold escapeChar
  split
  · rename_i letter hletter
    obtain ⟨hu, hread⟩ := escapes_letter hletter
    rw [List.cons_append, List.singleton_append, readChar.eq_def]
    simp [hu, hread]
  · rename_i hnone
    split
    · rename_i hlow
      have hhigh : c.toNat / 16 < 16 := by omega
      have hlast : c.toNat % 16 < 16 := by omega
      have hvalue : 16 * (c.toNat / 16) + c.toNat % 16 = c.toNat := by omega
      simp only [List.cons_append, List.nil_append, readChar]
      rw [hexVal_digitChar _ hhigh, hexVal_digitChar _ hlast, hvalue, Char.ofNat_toNat]
    · rw [List.singleton_append, readChar.eq_def]
      simp [(escapes_none hnone).2]

theorem escapeChar_append_inj {c d : Char} {s t : List Char}
    (h : escapeChar c ++ s = escapeChar d ++ t) : c = d ∧ s = t := by
  have hread := congrArg readChar h
  rw [readChar_escapeChar, readChar_escapeChar] at hread
  exact Prod.mk.inj (Option.some.inj hread)

/-- An escape does not begin with the quote that ends a string. -/
theorem escapeChar_ne_quote (c : Char) (s t : List Char) : escapeChar c ++ s ≠ '"' :: t := by
  unfold escapeChar
  split
  · simp
  · rename_i hnone
    split
    · simp
    · simp [(escapes_none hnone).1]

theorem escaped_append_inj {s t x y : List Char}
    (h : s.flatMap escapeChar ++ '"' :: x = t.flatMap escapeChar ++ '"' :: y) :
    s = t ∧ x = y := by
  induction s generalizing t with
  | nil =>
    cases t with
    | nil => exact ⟨rfl, (List.cons.inj h).2⟩
    | cons d t =>
      rw [List.flatMap_cons, List.append_assoc] at h
      exact absurd h.symm (escapeChar_ne_quote d _ _)
  | cons c s ih =>
    rw [List.flatMap_cons, List.append_assoc] at h
    cases t with
    | nil => exact absurd h (escapeChar_ne_quote c _ _)
    | cons d t =>
      rw [List.flatMap_cons, List.append_assoc] at h
      obtain ⟨rfl, hrest⟩ := escapeChar_append_inj h
      obtain ⟨rfl, rfl⟩ := ih hrest
      exact ⟨rfl, rfl⟩

theorem quoted_append_inj {s t : String} {x y : List Char}
    (h : quoted s ++ x = quoted t ++ y) : s = t ∧ x = y := by
  rw [quoted, quoted, List.cons_append, List.cons_append] at h
  have hbody := (List.cons.inj h).2
  rw [List.append_assoc, List.append_assoc] at hbody
  obtain ⟨hlist, hrest⟩ := escaped_append_inj hbody
  exact ⟨String.toList_inj.mp hlist, hrest⟩

/-! ## A text says where it ends -/

/-- What may stand behind a value: nothing, a comma or a closing bracket. -/
def Ends (rest : List Char) : Prop :=
  ∀ c ∈ rest.head?, c = ',' ∨ c = ']' ∨ c = '\x7d'

theorem ends_nil : Ends [] := by simp [Ends]

theorem ends_items (rest : Items) (s : List Char) : Ends (rest.restText ++ s) := by
  cases rest <;> simp [Ends, Items.restText]

theorem ends_members (rest : Members) (s : List Char) : Ends (rest.restText ++ s) := by
  cases rest <;> simp [Ends, Members.restText]

theorem takeWhile_number {word rest : List Char} (hword : ∀ c ∈ word, numberChar c = true)
    (hrest : Ends rest) : (word ++ rest).takeWhile numberChar = word := by
  rw [List.takeWhile_append_of_pos hword]
  cases rest with
  | nil => simp
  | cons c rest =>
    have hc : numberChar c = false := by
      rcases hrest c rfl with rfl | rfl | rfl <;> decide
    rw [List.takeWhile_cons, hc]
    simp

theorem number_append_inj {a b s t : List Char} (ha : ∀ c ∈ a, numberChar c = true)
    (hb : ∀ c ∈ b, numberChar c = true) (hs : Ends s) (ht : Ends t) (h : a ++ s = b ++ t) :
    a = b ∧ s = t := by
  have hword := congrArg (List.takeWhile numberChar) h
  rw [takeWhile_number ha hs, takeWhile_number hb ht] at hword
  subst hword
  exact ⟨rfl, List.append_cancel_left h⟩

inductive Kind where
  | null | bool | number | str | arr | obj
  deriving DecidableEq, Repr

def Json.kind : Json → Kind
  | .null => .null
  | .bool _ => .bool
  | .int _ => .number
  | .float _ => .number
  | .str _ => .str
  | .arr _ => .arr
  | .obj _ => .obj

/-- The kind of value whose text begins with a character. -/
def charKind (c : Char) : Option Kind :=
  if c = 'n' then some .null
  else if c = 't' ∨ c = 'f' then some .bool
  else if c = '"' then some .str
  else if c = '[' then some .arr
  else if c = '\x7b' then some .obj
  else if floatChar c ∨ c = 'N' ∨ c = 'I' then some .number
  else none

theorem charKind_of_floatChar {c : Char} (h : floatChar c = true) :
    charKind c = some .number := by
  have hne : ∀ d : Char, floatChar d = false → c ≠ d := by
    rintro d hd rfl
    rw [h] at hd
    cases hd
  simp [charKind, hne 'n' (by decide), hne 't' (by decide), hne 'f' (by decide),
    hne '"' (by decide), hne '[' (by decide), hne '\x7b' (by decide), h]

theorem floatChar_decimal (n : Int) : ∀ c ∈ decimal n, floatChar c = true := by
  intro c hc
  rw [floatChar, intChar_decimal n c hc, Bool.true_or, Bool.true_or, Bool.true_or]

theorem decimal_ne_nil (n : Int) : decimal n ≠ [] := by
  cases n with
  | ofNat m => exact Nat.toDigits_ne_nil
  | negSucc m => exact List.cons_ne_nil _ _

theorem head_text (a : Json) : ∃ c rest, a.text = c :: rest ∧ charKind c = some a.kind := by
  have hfloat : ∀ word : List Char, word ≠ [] → (∀ c ∈ word, floatChar c = true) →
      ∃ c rest, word = c :: rest ∧ charKind c = some .number := by
    intro word hne hall
    obtain ⟨c, rest, rfl⟩ := List.exists_cons_of_ne_nil hne
    exact ⟨c, rest, rfl, charKind_of_floatChar (hall c List.mem_cons_self)⟩
  cases a with
  | null => exact ⟨_, _, rfl, rfl⟩
  | bool b => cases b <;> exact ⟨_, _, rfl, rfl⟩
  | int n => exact hfloat _ (decimal_ne_nil n) (floatChar_decimal n)
  | float x =>
    cases x with
    | nan => exact ⟨_, _, rfl, rfl⟩
    | inf => exact ⟨_, _, rfl, rfl⟩
    | negInf => exact ⟨_, _, rfl, rfl⟩
    | finite x =>
      have hne : x.text ≠ [] := by
        intro hnil
        have hany := x.notInt
        rw [hnil] at hany
        cases hany
      exact hfloat _ hne (List.all_eq_true.mp x.chars)
  | str s => exact ⟨_, _, rfl, rfl⟩
  | arr items => exact ⟨_, _, rfl, rfl⟩
  | obj members => exact ⟨_, _, rfl, rfl⟩

/-- The first character tells the kind of the value. -/
theorem kind_eq {a b : Json} {s t : List Char} (h : a.text ++ s = b.text ++ t) :
    a.kind = b.kind := by
  obtain ⟨c, rest, hc, hkind⟩ := head_text a
  obtain ⟨d, rest', hd, hkind'⟩ := head_text b
  rw [hc, hd] at h
  rw [(List.cons.inj h).1, hkind'] at hkind
  exact (Option.some.inj hkind).symm

/-- No value begins with the bracket that ends an array. -/
theorem text_ne_bracket (a : Json) (s t : List Char) : a.text ++ s ≠ ']' :: t := by
  obtain ⟨c, rest, hc, hkind⟩ := head_text a
  rw [hc]
  intro h
  rw [(List.cons.inj h).1] at hkind
  exact absurd hkind (by rw [show charKind ']' = none from by decide]; simp)

mutual

theorem Json.text_append_inj : ∀ (a b : Json) {s t : List Char}, Ends s → Ends t →
    a.text ++ s = b.text ++ t → a = b ∧ s = t
  | .null, b, s, t, _, _, h => by
      cases b with
      | null => exact ⟨rfl, List.append_cancel_left h⟩
      | _ => cases kind_eq h
  | .bool x, b, s, t, _, _, h => by
      cases b with
      | bool y =>
        cases x <;> cases y
        · exact ⟨rfl, List.append_cancel_left h⟩
        · exact absurd (List.cons.inj h).1 (by decide)
        · exact absurd (List.cons.inj h).1 (by decide)
        · exact ⟨rfl, List.append_cancel_left h⟩
      | _ => cases kind_eq h
  | .int m, b, s, t, hs, ht, h => by
      have hm : ∀ c ∈ decimal m, numberChar c = true :=
        fun c hc => numberChar_of_floatChar (floatChar_decimal m c hc)
      cases b with
      | int n =>
        have hn : ∀ c ∈ decimal n, numberChar c = true :=
          fun c hc => numberChar_of_floatChar (floatChar_decimal n c hc)
        obtain ⟨hword, hrest⟩ := number_append_inj hm hn hs ht h
        exact ⟨congrArg Json.int (decimal_injective hword), hrest⟩
      | float y =>
        obtain ⟨hword, -⟩ := number_append_inj hm (numberChar_json y) hs ht h
        exact absurd hword.symm (json_ne_decimal y m)
      | _ => cases kind_eq h
  | .float x, b, s, t, hs, ht, h => by
      cases b with
      | int n =>
        have hn : ∀ c ∈ decimal n, numberChar c = true :=
          fun c hc => numberChar_of_floatChar (floatChar_decimal n c hc)
        obtain ⟨hword, -⟩ := number_append_inj (numberChar_json x) hn hs ht h
        exact absurd hword (json_ne_decimal x n)
      | float y =>
        obtain ⟨hword, hrest⟩ :=
          number_append_inj (numberChar_json x) (numberChar_json y) hs ht h
        exact ⟨congrArg Json.float (PyFloat.json_injective hword), hrest⟩
      | _ => cases kind_eq h
  | .str x, b, s, t, _, _, h => by
      cases b with
      | str y =>
        obtain ⟨hword, hrest⟩ := quoted_append_inj h
        exact ⟨congrArg Json.str hword, hrest⟩
      | _ => cases kind_eq h
  | .arr x, b, s, t, _, _, h => by
      cases b with
      | arr y =>
        obtain ⟨hitems, hrest⟩ := x.text_append_inj y (List.cons.inj h).2
        exact ⟨congrArg Json.arr hitems, hrest⟩
      | _ => cases kind_eq h
  | .obj x, b, s, t, _, _, h => by
      cases b with
      | obj y =>
        obtain ⟨hmembers, hrest⟩ := x.text_append_inj y (List.cons.inj h).2
        exact ⟨congrArg Json.obj hmembers, hrest⟩
      | _ => cases kind_eq h

theorem Items.text_append_inj : ∀ (x y : Items) {s t : List Char},
    x.text ++ s = y.text ++ t → x = y ∧ s = t
  | .nil, .nil, s, t, h => ⟨rfl, List.append_cancel_left h⟩
  | .nil, .cons b y, s, t, h => by
      simp only [Items.text, List.append_assoc] at h
      exact absurd h.symm (text_ne_bracket b _ _)
  | .cons a x, .nil, s, t, h => by
      simp only [Items.text, List.append_assoc] at h
      exact absurd h (text_ne_bracket a _ _)
  | .cons a x, .cons b y, s, t, h => by
      simp only [Items.text, List.append_assoc] at h
      obtain ⟨rfl, hrest⟩ := a.text_append_inj b (ends_items x s) (ends_items y t) h
      obtain ⟨rfl, rfl⟩ := x.restText_append_inj y hrest
      exact ⟨rfl, rfl⟩

theorem Items.restText_append_inj : ∀ (x y : Items) {s t : List Char},
    x.restText ++ s = y.restText ++ t → x = y ∧ s = t
  | .nil, .nil, s, t, h => ⟨rfl, List.append_cancel_left h⟩
  | .nil, .cons b y, s, t, h => absurd (List.cons.inj h).1 (by decide)
  | .cons a x, .nil, s, t, h => absurd (List.cons.inj h).1 (by decide)
  | .cons a x, .cons b y, s, t, h => by
      have hrest := (List.cons.inj (List.cons.inj h).2).2
      change (a.text ++ x.restText) ++ s = (b.text ++ y.restText) ++ t at hrest
      rw [List.append_assoc, List.append_assoc] at hrest
      obtain ⟨rfl, hitems⟩ := a.text_append_inj b (ends_items x s) (ends_items y t) hrest
      obtain ⟨rfl, rfl⟩ := x.restText_append_inj y hitems
      exact ⟨rfl, rfl⟩

theorem Members.text_append_inj : ∀ (x y : Members) {s t : List Char},
    x.text ++ s = y.text ++ t → x = y ∧ s = t
  | .nil, .nil, s, t, h => ⟨rfl, List.append_cancel_left h⟩
  | .nil, .cons k b y, s, t, h => absurd (List.cons.inj h).1 (by decide)
  | .cons k a x, .nil, s, t, h => absurd (List.cons.inj h).1 (by decide)
  | .cons k a x, .cons l b y, s, t, h => by
      simp only [Members.text, List.append_assoc, List.cons_append] at h
      obtain ⟨rfl, hcolon⟩ := quoted_append_inj h
      have hvalue := (List.cons.inj (List.cons.inj hcolon).2).2
      obtain ⟨rfl, hmembers⟩ := a.text_append_inj b (ends_members x s) (ends_members y t) hvalue
      obtain ⟨rfl, rfl⟩ := x.restText_append_inj y hmembers
      exact ⟨rfl, rfl⟩

theorem Members.restText_append_inj : ∀ (x y : Members) {s t : List Char},
    x.restText ++ s = y.restText ++ t → x = y ∧ s = t
  | .nil, .nil, s, t, h => ⟨rfl, List.append_cancel_left h⟩
  | .nil, .cons k b y, s, t, h => absurd (List.cons.inj h).1 (by decide)
  | .cons k a x, .nil, s, t, h => absurd (List.cons.inj h).1 (by decide)
  | .cons k a x, .cons l b y, s, t, h => by
      have hrest := (List.cons.inj (List.cons.inj h).2).2
      change (quoted k ++ ':' :: ' ' :: (a.text ++ x.restText)) ++ s =
        (quoted l ++ ':' :: ' ' :: (b.text ++ y.restText)) ++ t at hrest
      simp only [List.append_assoc, List.cons_append] at hrest
      obtain ⟨rfl, hcolon⟩ := quoted_append_inj hrest
      have hvalue := (List.cons.inj (List.cons.inj hcolon).2).2
      obtain ⟨rfl, hmembers⟩ := a.text_append_inj b (ends_members x s) (ends_members y t) hvalue
      obtain ⟨rfl, rfl⟩ := x.restText_append_inj y hmembers
      exact ⟨rfl, rfl⟩

end

/-- Different values have different texts. -/
theorem Json.text_injective {a b : Json} (h : a.text = b.text) : a = b := by
  refine (a.text_append_inj b ends_nil ends_nil ?_).1
  rw [h]

/-! ## Inside and outside of strings -/

/-- Where a reader of a text is; `escaped` is behind a backslash in a string. -/
inductive Scan where
  | outside | inside | escaped
  deriving DecidableEq, Repr

/-- What a text holds outside its strings, the quotes aside. -/
def outsideChar (c : Char) : Bool :=
  numberChar c ||
    ['\x7b', '\x7d', '[', ']', ':', ',', ' ', 't', 'r', 'u', 'e', 'l', 's'].contains c

def Scan.step : Scan → Char → Option Scan
  | .outside, c =>
      if c = '"' then some .inside else if outsideChar c then some .outside else none
  | .inside, c =>
      if c = '"' then some .outside else if c = '\\' then some .escaped else some .inside
  | .escaped, _ => some .inside

def scanner : Machine Scan Char := ⟨Scan.step⟩

theorem scan_append {x y z : Scan} {s t : List Char} (hs : scanner.run x s = some y)
    (ht : scanner.run y t = some z) : scanner.run x (s ++ t) = some z :=
  scanner.run_append_eq_some.mpr ⟨y, hs, ht⟩

theorem scan_cons {x y z : Scan} {c : Char} {s : List Char} (hc : x.step c = some y)
    (hs : scanner.run y s = some z) : scanner.run x (c :: s) = some z :=
  scanner.run_cons_eq_some.mpr ⟨y, hc, hs⟩

theorem scan_number {word : List Char} (h : ∀ c ∈ word, numberChar c = true) :
    scanner.run .outside word = some .outside := by
  induction word with
  | nil => rfl
  | cons c word ih =>
    have hc : numberChar c = true := h c List.mem_cons_self
    have hquote : c ≠ '"' := by
      rintro rfl
      exact absurd hc (by decide)
    refine scan_cons ?_ (ih fun d hd => h d (List.mem_cons_of_mem c hd))
    rw [Scan.step, if_neg hquote, if_pos (by rw [outsideChar, hc, Bool.true_or])]

theorem scan_escapeChar (c : Char) :
    scanner.run .inside (escapeChar c) = some .inside := by
  unfold escapeChar
  split
  · exact scan_cons rfl rfl
  · rename_i hnone
    split
    · rename_i hlow
      -- a hexadecimal digit is neither a quote nor a backslash
      have hdigit : ∀ d, d < 16 → Scan.step .inside (Nat.digitChar d) = some .inside := by decide
      have hhigh : c.toNat / 16 < 16 := by omega
      have hlast : c.toNat % 16 < 16 := by omega
      refine scan_cons rfl (scan_cons rfl (scan_cons rfl (scan_cons rfl ?_)))
      exact scan_cons (hdigit _ hhigh) (scan_cons (hdigit _ hlast) rfl)
    · obtain ⟨hquote, hback⟩ := escapes_none hnone
      refine scan_cons ?_ rfl
      rw [Scan.step, if_neg hquote, if_neg hback]

theorem scan_quoted (s : String) : scanner.run .outside (quoted s) = some .outside := by
  have hbody : ∀ chars : List Char,
      scanner.run .inside (chars.flatMap escapeChar) = some .inside := by
    intro chars
    induction chars with
    | nil => rfl
    | cons c chars ih =>
      rw [List.flatMap_cons]
      exact scan_append (scan_escapeChar c) ih
  exact scan_cons rfl (scan_append (hbody s.toList) rfl)

mutual

theorem Json.scan_text : ∀ a : Json, scanner.run .outside a.text = some .outside
  | .null => by decide
  | .bool true => by decide
  | .bool false => by decide
  | .int n => scan_number fun c hc => numberChar_of_floatChar (floatChar_decimal n c hc)
  | .float x => scan_number (numberChar_json x)
  | .str s => scan_quoted s
  | .arr items => scan_cons rfl items.scan_text
  | .obj members => scan_cons rfl members.scan_text

theorem Items.scan_text : ∀ items : Items, scanner.run .outside items.text = some .outside
  | .nil => by decide
  | .cons item rest => scan_append item.scan_text rest.scan_restText

theorem Items.scan_restText : ∀ items : Items,
    scanner.run .outside items.restText = some .outside
  | .nil => by decide
  | .cons item rest =>
      scan_cons rfl (scan_cons rfl (scan_append item.scan_text rest.scan_restText))

theorem Members.scan_text : ∀ members : Members,
    scanner.run .outside members.text = some .outside
  | .nil => by decide
  | .cons key value rest =>
      scan_append (scan_quoted key)
        (scan_cons rfl (scan_cons rfl (scan_append value.scan_text rest.scan_restText)))

theorem Members.scan_restText : ∀ members : Members,
    scanner.run .outside members.restText = some .outside
  | .nil => by decide
  | .cons key value rest =>
      scan_cons rfl (scan_cons rfl (scan_append (scan_quoted key)
        (scan_cons rfl (scan_cons rfl (scan_append value.scan_text rest.scan_restText)))))

end

/-- Two readers of one text, of whom one starts outside and the other inside
a string, are never both outside: every quote moves both, and a backslash
stops the one who is outside. -/
theorem scan_parity {t : List Char} {x y : Scan} (hout : scanner.run .outside t = some x)
    (hin : scanner.run .inside t = some y) :
    (x = .outside ∧ y = .inside) ∨ (x = .inside ∧ y = .outside) := by
  induction t generalizing x y with
  | nil =>
    cases hout
    cases hin
    exact Or.inl ⟨rfl, rfl⟩
  | cons c t ih =>
    obtain ⟨u, hu, hout⟩ := scanner.run_cons_eq_some.mp hout
    obtain ⟨v, hv, hin⟩ := scanner.run_cons_eq_some.mp hin
    change Scan.step .outside c = some u at hu
    change Scan.step .inside c = some v at hv
    by_cases hquote : c = '"'
    · rw [Scan.step, if_pos hquote] at hu
      rw [Scan.step, if_pos hquote] at hv
      cases hu
      cases hv
      exact (ih hin hout).symm.imp (fun h => ⟨h.2, h.1⟩) (fun h => ⟨h.2, h.1⟩)
    · rw [Scan.step, if_neg hquote] at hu
      rw [Scan.step, if_neg hquote] at hv
      by_cases hback : c = '\\'
      · rw [hback, if_neg (by decide)] at hu
        cases hu
      · rw [if_neg hback] at hv
        obtain ⟨-, hu⟩ := Option.ite_none_right_eq_some.mp hu
        cases hu
        cases hv
        exact ih hout hin

/-- A text has no text behind a separator in it. -/
theorem Json.text_ne_append {sep : Char} (houtside : outsideChar sep = false) (hquote : sep ≠ '"')
    (hback : sep ≠ '\\') (a b : Json) (front : List Char) :
    a.text ≠ front ++ sep :: b.text := by
  intro heq
  have hscan := a.scan_text
  rw [heq] at hscan
  obtain ⟨x, -, hrest⟩ := scanner.run_append_eq_some.mp hscan
  obtain ⟨y, hy, hb⟩ := scanner.run_cons_eq_some.mp hrest
  -- the separator stands in a string
  have hinside : y = .inside := by
    change x.step sep = some y at hy
    cases x with
    | outside =>
      rw [Scan.step, if_neg hquote, if_neg (by rw [houtside]; exact Bool.false_ne_true)] at hy
      cases hy
    | inside =>
      rw [Scan.step, if_neg hquote, if_neg hback] at hy
      exact (Option.some.inj hy).symm
    | escaped => exact (Option.some.inj hy).symm
  subst hinside
  rcases scan_parity b.scan_text hb with ⟨-, h⟩ | ⟨h, -⟩
  · cases h
  · cases h

/-- Behind the last separator. -/
theorem append_separator_injective {sep : Char} {a b x y : List Char} (ha : sep ∉ a) (hb : sep ∉ b)
    (h : x ++ sep :: a = y ++ sep :: b) : x = y ∧ a = b := by
  rcases List.append_eq_append_iff.mp h with ⟨u, rfl, hu⟩ | ⟨u, rfl, hu⟩
  · cases u with
    | nil => exact ⟨(List.append_nil x).symm, (List.cons.inj hu).2⟩
    | cons c u => exact absurd (by rw [(List.cons.inj hu).2]; simp) ha
  · cases u with
    | nil => exact ⟨List.append_nil y, (List.cons.inj hu).2.symm⟩
    | cons c u => exact absurd (by rw [(List.cons.inj hu).2]; simp) hb

/-- What stands in front of a separator and the value behind it can be read
off, also when the separator occurs in both. -/
theorem Json.append_text_injective {sep : Char} (houtside : outsideChar sep = false)
    (hquote : sep ≠ '"') (hback : sep ≠ '\\') {a b : Json} {x y : List Char}
    (h : x ++ sep :: a.text = y ++ sep :: b.text) : x = y ∧ a = b := by
  rcases List.append_eq_append_iff.mp h with ⟨u, rfl, hu⟩ | ⟨u, rfl, hu⟩
  · cases u with
    | nil =>
      rw [List.append_nil]
      exact ⟨rfl, text_injective (List.cons.inj hu).2⟩
    | cons c u =>
      obtain ⟨rfl, htext⟩ := List.cons.inj hu
      exact absurd htext (a.text_ne_append houtside hquote hback b u)
  · cases u with
    | nil =>
      rw [List.append_nil]
      exact ⟨rfl, (text_injective (List.cons.inj hu).2).symm⟩
    | cons c u =>
      obtain ⟨rfl, htext⟩ := List.cons.inj hu
      exact absurd htext (b.text_ne_append houtside hquote hback a u)

end NeuralHub.Lib
