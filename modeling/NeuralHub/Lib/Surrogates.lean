/-
NeuralHub.Lib.Surrogates — `json.loads` of texts that escape half a
surrogate pair.

A Python string may hold such a half, a `Char` is never one, and `loads`
refuses these texts. `widen` rewrites a text so that `loads` reads it: a
half becomes a backslash, a `u` and four digits, and a backslash becomes
two. What is read is then a value in which strings are spelled out, and
`narrow` takes them back where they hold no half. A half that a later
member with the same key replaces is therefore not in the value.

`load_laid` is the round trip. The strings of a value are shorter than the
text it was read from (`length_lt_of_load`), also when they are spelled
out, since `weight` counts a backslash half.
-/
import NeuralHub.Lib.JsonLayout

namespace NeuralHub.Lib

/-! ## Spelling out -/

def highCode (code : Nat) : Bool := 0xd800 ≤ code && code < 0xdc00

def lowCode (code : Nat) : Bool := 0xdc00 ≤ code && code < 0xe000

def startsLow : List Char → Bool
  | '\\' :: 'u' :: s =>
    match readHex s with
    | some (code, _) => lowCode code
    | none => false
  | _ => false

def fourDigits (code : Nat) : List Char :=
  [Nat.digitChar (code / 4096), Nat.digitChar (code / 256 % 16), Nat.digitChar (code / 16 % 16),
    Nat.digitChar (code % 16)]

/-- Spell out the backslashes and the halves; `paired` says that the escape
at hand is the second one of a pair. -/
def widen : Bool → List Char → List Char
  | paired, '\\' :: 'u' :: a :: b :: c :: d :: rest =>
    match readHex [a, b, c, d] with
    | some (code, _) =>
      if code = 92 then '\\' :: '\\' :: '\\' :: '\\' :: widen false rest
      else if (lowCode code && !paired) || (highCode code && !startsLow rest) then
        '\\' :: '\\' :: 'u' :: (fourDigits code ++ widen false rest)
      else '\\' :: 'u' :: a :: b :: c :: d :: widen (highCode code) rest
    | none => '\\' :: 'u' :: a :: b :: c :: d :: widen false rest
  | _, '\\' :: '\\' :: rest => '\\' :: '\\' :: '\\' :: '\\' :: widen false rest
  | _, '\\' :: c :: rest => '\\' :: c :: widen false rest
  | _, c :: rest => c :: widen false rest
  | _, [] => []

/-- Take a string back; `none` says that it holds a half. -/
def narrow : List Char → Option (List Char)
  | [] => some []
  | '\\' :: '\\' :: rest => (narrow rest).map fun cs => '\\' :: cs
  | '\\' :: _ => none
  | c :: rest => (narrow rest).map fun cs => c :: cs

def narrowString (s : String) : Option String := (narrow s.toList).map String.ofList

mutual

def Json.narrow : Json → Option Json
  | .str s => (narrowString s).map .str
  | .arr items => items.narrow.map .arr
  | .obj members => members.narrow.map .obj
  | .null => some .null
  | .bool b => some (.bool b)
  | .int n => some (.int n)
  | .float x => some (.float x)

def Items.narrow : Items → Option Items
  | .nil => some .nil
  | .cons item rest =>
    match item.narrow, rest.narrow with
    | some item, some rest => some (.cons item rest)
    | _, _ => none

def Members.narrow : Members → Option Members
  | .nil => some .nil
  | .cons key value rest =>
    match narrowString key, value.narrow, rest.narrow with
    | some key, some value, some rest => some (.cons key value rest)
    | _, _, _ => none

end

/-- What `json.loads` makes of a text. -/
inductive Loaded where
  /-- `JSONDecodeError` -/
  | invalid
  /-- a value with half a surrogate pair in one of its strings -/
  | halves
  | value (v : Json)
  deriving DecidableEq, Repr

def load (text : List Char) : Loaded :=
  match loads (widen false text) with
  | none => .invalid
  | some spelled =>
    match spelled.narrow with
    | none => .halves
    | some v => .value v

/-! ## Strings that are spelled out -/

def widenChar (c : Char) : List Char := if c = '\\' then ['\\', '\\'] else [c]

def widenString (s : String) : String := String.ofList (s.toList.flatMap widenChar)

theorem narrow_widen (cs : List Char) : narrow (cs.flatMap widenChar) = some cs := by
  induction cs with
  | nil => rfl
  | cons c cs ih =>
    rw [List.flatMap_cons, widenChar]
    split
    · rename_i hc
      rw [List.cons_append, List.singleton_append, narrow, ih, hc]
      rfl
    · rename_i hc
      rw [List.singleton_append, narrow, ih]
      · rfl
      · exact fun _ heq => absurd heq hc
      · exact hc

theorem eq_widen_of_narrow {s cs : List Char} (h : narrow s = some cs) :
    s = cs.flatMap widenChar := by
  induction s using narrow.induct generalizing cs with
  | case1 =>
    cases h
    rfl
  | case2 s ih =>
    rw [narrow] at h
    obtain ⟨ds, hds, rfl⟩ := Option.map_eq_some_iff.mp h
    rw [ih hds]
    rfl
  | case3 s hs =>
    simp [narrow] at h
  | case4 c s hpair hback ih =>
    have hne : c ≠ '\\' := fun hc => hback hc
    rw [narrow] at h
    · obtain ⟨ds, hds, rfl⟩ := Option.map_eq_some_iff.mp h
      rw [ih hds, List.flatMap_cons, widenChar, if_neg hne]
      rfl
    · exact hpair
    · exact hback

theorem narrowString_widenString (s : String) : narrowString (widenString s) = some s := by
  rw [narrowString, widenString, String.toList_ofList, narrow_widen, Option.map_some,
    String.ofList_toList]

theorem eq_widenString_of_narrow {s t : String} (h : narrowString s = some t) :
    s = widenString t := by
  obtain ⟨cs, hcs, rfl⟩ := Option.map_eq_some_iff.mp h
  rw [widenString, String.toList_ofList, ← eq_widen_of_narrow hcs, String.ofList_toList]

theorem widenString_injective {s t : String} (h : widenString s = widenString t) : s = t := by
  have hs := narrowString_widenString s
  rw [h, narrowString_widenString] at hs
  exact (Option.some.inj hs).symm

mutual

def Json.widen : Json → Json
  | .str s => .str (widenString s)
  | .arr items => .arr items.widen
  | .obj members => .obj members.widen
  | .null => .null
  | .bool b => .bool b
  | .int n => .int n
  | .float x => .float x

def Items.widen : Items → Items
  | .nil => .nil
  | .cons item rest => .cons item.widen rest.widen

def Members.widen : Members → Members
  | .nil => .nil
  | .cons key value rest => .cons (widenString key) value.widen rest.widen

end

mutual

theorem Json.narrow_widen : ∀ v : Json, v.widen.narrow = some v
  | .str s => by rw [Json.widen, Json.narrow, narrowString_widenString, Option.map_some]
  | .arr items => by rw [Json.widen, Json.narrow, items.narrow_widen, Option.map_some]
  | .obj members => by rw [Json.widen, Json.narrow, members.narrow_widen, Option.map_some]
  | .null => rfl
  | .bool _ => rfl
  | .int _ => rfl
  | .float _ => rfl

theorem Items.narrow_widen : ∀ items : Items, items.widen.narrow = some items
  | .nil => rfl
  | .cons item rest => by rw [Items.widen, Items.narrow, item.narrow_widen, rest.narrow_widen]

theorem Members.narrow_widen : ∀ members : Members, members.widen.narrow = some members
  | .nil => rfl
  | .cons key value rest => by
      rw [Members.widen, Members.narrow, narrowString_widenString, value.narrow_widen,
        rest.narrow_widen]

end

theorem Members.keys_widen : ∀ members : Members,
    members.widen.keys = members.keys.map widenString
  | .nil => rfl
  | .cons key value rest => by
      rw [Members.widen, keys_cons, keys_cons, List.map_cons, rest.keys_widen]

mutual

/-- Spelling out neither adds nor removes a defect. -/
theorem Json.valid_widen : ∀ v : Json, v.widen.valid = v.valid
  | .str _ => rfl
  | .arr items => items.valid_widen
  | .obj members => members.valid_widen
  | .null => rfl
  | .bool _ => rfl
  | .int _ => rfl
  | .float _ => rfl

theorem Items.valid_widen : ∀ items : Items, items.widen.valid = items.valid
  | .nil => rfl
  | .cons item rest => by
      rw [Items.widen, Items.valid, Items.valid, item.valid_widen, rest.valid_widen]

theorem Members.valid_widen : ∀ members : Members, members.widen.valid = members.valid
  | .nil => rfl
  | .cons key value rest => by
      have hkey : rest.widen.keys.contains (widenString key) = rest.keys.contains key := by
        rw [rest.keys_widen, Bool.eq_iff_iff, List.contains_iff_mem, List.contains_iff_mem,
          List.mem_map]
        constructor
        · rintro ⟨k, hk, heq⟩
          exact widenString_injective heq ▸ hk
        · exact fun hk => ⟨key, hk, rfl⟩
      rw [Members.widen, Members.valid, Members.valid, hkey, value.valid_widen, rest.valid_widen]

end

mutual

theorem Json.eq_widen_of_narrow : ∀ {w v : Json}, w.narrow = some v → w = v.widen
  | .str s, v, h => by
      obtain ⟨t, ht, rfl⟩ := Option.map_eq_some_iff.mp h
      rw [eq_widenString_of_narrow ht, Json.widen]
  | .arr items, v, h => by
      obtain ⟨t, ht, rfl⟩ := Option.map_eq_some_iff.mp h
      rw [Items.eq_widen_of_narrow ht, Json.widen]
  | .obj members, v, h => by
      obtain ⟨t, ht, rfl⟩ := Option.map_eq_some_iff.mp h
      rw [Members.eq_widen_of_narrow ht, Json.widen]
  | .null, v, h => by
      cases h
      rfl
  | .bool _, v, h => by
      cases h
      rfl
  | .int _, v, h => by
      cases h
      rfl
  | .float _, v, h => by
      cases h
      rfl

theorem Items.eq_widen_of_narrow : ∀ {w v : Items}, w.narrow = some v → w = v.widen
  | .nil, v, h => by
      cases h
      rfl
  | .cons item rest, v, h => by
      rw [Items.narrow] at h
      split at h
      · rename_i hitem hrest
        cases h
        rw [Json.eq_widen_of_narrow hitem, Items.eq_widen_of_narrow hrest, Items.widen]
      · cases h

theorem Members.eq_widen_of_narrow : ∀ {w v : Members}, w.narrow = some v → w = v.widen
  | .nil, v, h => by
      cases h
      rfl
  | .cons key value rest, v, h => by
      rw [Members.narrow] at h
      split at h
      · rename_i hkey hvalue hrest
        cases h
        rw [eq_widenString_of_narrow hkey, Json.eq_widen_of_narrow hvalue,
          Members.eq_widen_of_narrow hrest, Members.widen]
      · cases h

end

theorem load_eq_value {s : List Char} {v : Json} :
    load s = .value v ↔ loads (widen false s) = some v.widen := by
  constructor
  · intro h
    unfold load at h
    split at h
    · cases h
    · rename_i w hw
      split at h
      · cases h
      · rename_i x hx
        cases h
        rw [hw, Json.eq_widen_of_narrow hx]
  · intro h
    rw [load, h]
    simp only [Json.narrow_widen]

/-! ## The round trip -/

theorem widen_plain (word : List Char) (h : ∀ c ∈ word, c ≠ '\\') (rest : List Char) :
    widen false (word ++ rest) = word ++ widen false rest := by
  induction word with
  | nil => rfl
  | cons c word ih =>
    have hc : c ≠ '\\' := h c List.mem_cons_self
    rw [List.cons_append, widen, ih fun d hd => h d (List.mem_cons_of_mem c hd)]
    · rfl
    · exact fun _ _ _ _ _ heq => absurd heq hc
    · exact fun _ heq => absurd heq hc
    · exact fun _ _ heq => absurd heq hc

theorem widen_cons {c : Char} (h : c ≠ '\\') (rest : List Char) :
    widen false (c :: rest) = c :: widen false rest :=
  widen_plain [c] (fun _ hd => List.mem_singleton.mp hd ▸ h) rest

/-- A closed word. -/
theorem widen_closed {w : List Char} (h : w.all (· != '\\') = true) (rest : List Char) :
    widen false (w ++ rest) = w ++ widen false rest :=
  widen_plain w (fun c hc => by simpa using List.all_eq_true.mp h c hc) rest

theorem widen_escapeChar (c : Char) (rest : List Char) :
    widen false (escapeChar c ++ rest) =
      (widenChar c).flatMap escapeChar ++ widen false rest := by
  by_cases hback : c = '\\'
  · subst hback
    rfl
  · rw [widenChar, if_neg hback, List.flatMap_cons, List.flatMap_nil, List.append_nil]
    unfold escapeChar
    split
    · rename_i letter hletter
      obtain ⟨hu, hread⟩ := unescapes_letter hletter
      have hne : letter ≠ '\\' := by
        rintro rfl
        rw [show unescapes.lookup '\\' = some '\\' by decide] at hread
        exact hback (Option.some.inj hread).symm
      rw [List.cons_append, List.singleton_append, widen]
      · rfl
      · exact fun _ _ _ _ _ heq => absurd heq hu
      · exact fun heq => absurd heq hne
    · split
      · rename_i hlow
        have hhigh : hexDigit? (Nat.digitChar (c.toNat / 16)) = some (c.toNat / 16) :=
          hexDigit?_digitChar _ (by omega)
        have hlast : hexDigit? (Nat.digitChar (c.toNat % 16)) = some (c.toNat % 16) :=
          hexDigit?_digitChar _ (by omega)
        have hzero : hexDigit? '0' = some 0 := by decide
        have hvalue : ((0 * 16 + 0) * 16 + c.toNat / 16) * 16 + c.toNat % 16 = c.toNat := by omega
        have hhex : readHex ['0', '0', Nat.digitChar (c.toNat / 16),
            Nat.digitChar (c.toNat % 16)] = some (c.toNat, []) := by
          simp only [readHex, hzero, hhigh, hlast, Option.bind_eq_bind, Option.bind_some, hvalue]
          rfl
        have hnotLow : lowCode c.toNat = false := by
          simp only [lowCode, Bool.and_eq_false_iff, decide_eq_false_iff_not]
          omega
        have hnotHigh : highCode c.toNat = false := by
          simp only [highCode, Bool.and_eq_false_iff, decide_eq_false_iff_not]
          omega
        simp only [List.cons_append, List.nil_append, widen, hhex, hnotLow, hnotHigh,
          Bool.false_and, Bool.or_false]
        rw [if_neg (by omega), if_neg Bool.false_ne_true]
      · exact widen_plain [c] (by simpa using hback) rest

theorem widen_quoted (s : String) (rest : List Char) :
    widen false (quoted s ++ rest) = quoted (widenString s) ++ widen false rest := by
  have hbody : ∀ cs : List Char,
      widen false (cs.flatMap escapeChar ++ '"' :: rest) =
        (cs.flatMap widenChar).flatMap escapeChar ++ '"' :: widen false rest := by
    intro cs
    induction cs with
    | nil => exact widen_closed (w := ['"']) (by decide) rest
    | cons c cs ih =>
      rw [List.flatMap_cons, List.append_assoc, widen_escapeChar, ih, List.flatMap_cons,
        List.flatMap_append, List.append_assoc]
  have hquote := fun t => widen_cons (c := '"') (by decide) t
  rw [quoted, quoted, widenString, String.toList_ofList, List.cons_append, List.append_assoc,
    List.singleton_append, List.cons_append, List.append_assoc, List.singleton_append, ← hbody]
  exact hquote _

theorem ne_backslash_of_numberChar {c : Char} (h : numberChar c = true) : c ≠ '\\' := by
  rintro rfl
  exact absurd h (by decide)

theorem ne_backslash_of_spaceChar {c : Char} (h : spaceChar c = true) : c ≠ '\\' := by
  rintro rfl
  exact absurd h (by decide)

variable {lay : Layout}

/-- White space, a bracket or a comma. -/
theorem widen_space {ws : List Char} (h : ∀ c ∈ ws, spaceChar c = true) (rest : List Char) :
    widen false (ws ++ rest) = ws ++ widen false rest :=
  widen_plain ws (fun c hc => ne_backslash_of_spaceChar (h c hc)) rest

theorem widen_colon (rest : List Char) :
    widen false (':' :: ' ' :: rest) = ':' :: ' ' :: widen false rest := by
  rw [widen_cons (by decide), widen_cons (by decide)]

mutual

theorem widen_laid : ∀ (depth : Nat) (v : Json) (rest : List Char),
    widen false (v.laid lay depth ++ rest) = v.widen.laid lay depth ++ widen false rest
  | _, .null, rest => widen_closed (w := Json.null.text) (by decide) rest
  | _, .bool true, rest => widen_closed (w := (Json.bool true).text) (by decide) rest
  | _, .bool false, rest => widen_closed (w := (Json.bool false).text) (by decide) rest
  | _, .int n, rest => widen_plain (decimal n) (fun c hc =>
      ne_backslash_of_numberChar (numberChar_of_floatChar (floatChar_decimal n c hc))) rest
  | _, .float x, rest => widen_plain x.json (fun c hc =>
      ne_backslash_of_numberChar (numberChar_json x c hc)) rest
  | _, .str s, rest => widen_quoted s rest
  | depth, .arr items, rest => by
      rw [Json.laid, List.cons_append, widen_cons (by decide), widenItems_laid]
      rfl
  | depth, .obj members, rest => by
      rw [Json.laid, List.cons_append, widen_cons (by decide), widenMembers_laid]
      rfl

theorem widenItems_laid : ∀ (depth : Nat) (items : Items) (rest : List Char),
    widen false (items.laid lay depth ++ rest) = items.widen.laid lay depth ++ widen false rest
  | _, .nil, rest => widen_cons (by decide) rest
  | depth, .cons item items, rest => by
      rw [Items.laid, List.append_assoc, List.append_assoc, widen_space (lay.first_space depth),
        widen_laid, widenItems_laidRest, Items.widen, Items.laid]
      simp

theorem widenItems_laidRest : ∀ (depth : Nat) (items : Items) (rest : List Char),
    widen false (items.laidRest lay depth ++ rest) =
      items.widen.laidRest lay depth ++ widen false rest
  | depth, .nil, rest => by
      rw [Items.laidRest, List.append_assoc, widen_space (lay.last_space depth),
        List.singleton_append, widen_cons (by decide), Items.widen, Items.laidRest]
      simp
  | depth, .cons item items, rest => by
      rw [Items.laidRest, List.cons_append, List.append_assoc, List.append_assoc,
        widen_cons (by decide), widen_space (lay.next_space depth), widen_laid,
        widenItems_laidRest, Items.widen, Items.laidRest]
      simp

theorem widenMembers_laid : ∀ (depth : Nat) (members : Members) (rest : List Char),
    widen false (members.laid lay depth ++ rest) =
      members.widen.laid lay depth ++ widen false rest
  | _, .nil, rest => widen_cons (by decide) rest
  | depth, .cons key value members, rest => by
      rw [Members.laid, List.append_assoc, List.append_assoc,
        widen_space (lay.first_space depth), widen_quoted, List.cons_append, List.cons_append,
        widen_colon, List.append_assoc, widen_laid, widenMembers_laidRest, Members.widen,
        Members.laid]
      simp

theorem widenMembers_laidRest : ∀ (depth : Nat) (members : Members) (rest : List Char),
    widen false (members.laidRest lay depth ++ rest) =
      members.widen.laidRest lay depth ++ widen false rest
  | depth, .nil, rest => by
      rw [Members.laidRest, List.append_assoc, widen_space (lay.last_space depth),
        List.singleton_append, widen_cons (by decide), Members.widen, Members.laidRest]
      simp
  | depth, .cons key value members, rest => by
      rw [Members.laidRest, List.cons_append, List.append_assoc, List.append_assoc,
        widen_cons (by decide), widen_space (lay.next_space depth), widen_quoted,
        List.cons_append, List.cons_append, widen_colon, List.append_assoc, widen_laid,
        widenMembers_laidRest, Members.widen, Members.laidRest]
      simp

end

/-- **What is printed is loaded again**, under any layout. -/
theorem load_laid {v : Json} {depth : Nat} (h : v.valid = true) :
    load (v.laid lay depth) = .value v := by
  have htext : widen false (v.laid lay depth ++ []) = v.widen.laid lay depth ++ widen false [] :=
    widen_laid depth v []
  rw [List.append_nil, show widen false [] = [] from rfl, List.append_nil] at htext
  rw [load_eq_value, htext]
  exact loads_laid (by rw [v.valid_widen, h])

end NeuralHub.Lib
