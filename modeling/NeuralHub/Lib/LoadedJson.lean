/-
NeuralHub.Lib.LoadedJson — what is known of a value because `json.loads`
has made it.

Two facts, by one induction along the reader (`readValue_spec`): the value
is `valid`, so that it can be printed and read again, and its strings are
not longer than the text. The second one is stated with `weight`, which
counts a backslash one and any other character two: a text and the text
that `widen` makes of it bound the same strings, and `length_lt_of_load`
follows for texts with escaped halves too.
-/
import Mathlib.Algebra.GroupWithZero.Nat
import NeuralHub.Lib.Surrogates

namespace NeuralHub.Lib

/-! ## Weight -/

def charWeight (c : Char) : Nat := if c = '\\' then 1 else 2

def weight (s : List Char) : Nat := (s.map charWeight).sum

@[simp] theorem weight_nil : weight [] = 0 := rfl

@[simp] theorem weight_cons (c : Char) (s : List Char) :
    weight (c :: s) = charWeight c + weight s := by
  rw [weight, List.map_cons, List.sum_cons, weight]

@[simp] theorem weight_append (s t : List Char) : weight (s ++ t) = weight s + weight t := by
  rw [weight, List.map_append, List.sum_append, weight, weight]

theorem one_le_charWeight (c : Char) : 1 ≤ charWeight c := by
  unfold charWeight
  split <;> omega

theorem charWeight_le_two (c : Char) : charWeight c ≤ 2 := by
  unfold charWeight
  split <;> omega

theorem weight_le (s : List Char) : weight s ≤ 2 * s.length := by
  induction s with
  | nil => exact Nat.le_refl _
  | cons c s ih =>
    have hc := charWeight_le_two c
    rw [weight_cons, List.length_cons]
    omega

theorem weight_dropWhile_le (p : Char → Bool) (s : List Char) :
    weight (s.dropWhile p) ≤ weight s := by
  induction s with
  | nil => exact Nat.le_refl _
  | cons c s ih =>
    rw [List.dropWhile_cons]
    split
    · rw [weight_cons]
      omega
    · exact Nat.le_refl _

theorem weight_skipSpace_le (s : List Char) : weight (skipSpace s) ≤ weight s :=
  weight_dropWhile_le spaceChar s

theorem weight_of_skipSpace {s t : List Char} {c : Char} (h : skipSpace s = c :: t) :
    weight t + 1 ≤ weight s := by
  have hle := weight_skipSpace_le s
  have hc := one_le_charWeight c
  rw [h, weight_cons] at hle
  omega

/-! ## Strings -/

theorem weight_readHex {s rest : List Char} {code : Nat} (h : readHex s = some (code, rest)) :
    weight rest ≤ weight s := by
  unfold readHex at h
  split at h
  · obtain ⟨_, -, h⟩ := Option.bind_eq_some_iff.mp h
    obtain ⟨_, -, h⟩ := Option.bind_eq_some_iff.mp h
    obtain ⟨_, -, h⟩ := Option.bind_eq_some_iff.mp h
    obtain ⟨_, -, h⟩ := Option.bind_eq_some_iff.mp h
    have hrest := (Prod.mk.inj (Option.some.inj h)).2
    simp only [weight_cons, hrest]
    omega
  · cases h

theorem weight_readLowSurrogate {high : Nat} {s rest : List Char} {c : Char}
    (h : readLowSurrogate high s = some (c, rest)) : weight rest ≤ weight s := by
  unfold readLowSurrogate at h
  split at h
  · split at h
    · rename_i low t hhex
      have hle := weight_readHex hhex
      split at h
      · have hrest := (Prod.mk.inj (Option.some.inj h)).2
        rw [weight_cons, weight_cons, ← hrest]
        omega
      · cases h
    · cases h
  · cases h

theorem weight_readStringChar {s rest : List Char} {c : Char}
    (h : readStringChar s = some (c, rest)) : charWeight c + weight rest ≤ weight s := by
  have hc := charWeight_le_two c
  unfold readStringChar at h
  split at h
  · rename_i t
    have hback := one_le_charWeight '\\'
    have hu := one_le_charWeight 'u'
    rw [weight_cons, weight_cons]
    split at h
    · rename_i code t' hhex
      have hle := weight_readHex hhex
      split at h
      · have hlow := weight_readLowSurrogate h
        omega
      · split at h
        · cases h
        · cases h
          omega
    · cases h
  · rename_i letter t _
    obtain ⟨d, -, hpair⟩ := Option.map_eq_some_iff.mp h
    cases hpair
    have hback := one_le_charWeight '\\'
    have hletter := one_le_charWeight letter
    rw [weight_cons, weight_cons]
    omega
  · split at h
    · cases h
    · cases h
      exact Nat.le_of_eq (weight_cons c rest).symm
  · cases h

theorem weight_readString {fuel : Nat} {s cs rest : List Char}
    (h : readString fuel s = some (cs, rest)) : weight cs + 2 + weight rest ≤ weight s := by
  induction fuel generalizing s cs rest with
  | zero =>
    unfold readString at h
    split at h
    · cases h
      simp [charWeight]
    · cases h
    · rename_i heq _
      cases heq
  | succ fuel ih =>
    unfold readString at h
    split at h
    · cases h
      simp [charWeight]
    · cases h
    · rename_i heq _
      cases heq
      obtain ⟨⟨c, t⟩, hc, h⟩ := Option.bind_eq_some_iff.mp h
      obtain ⟨⟨ds, u⟩, hds, h⟩ := Option.bind_eq_some_iff.mp h
      cases h
      have hchar := weight_readStringChar hc
      have htail := ih hds
      rw [weight_cons]
      omega

/-! ## The strings of a value -/

mutual

/-- The sum of a measure over the strings of a value, keys aside. -/
def Json.strings (m : String → Nat) : Json → Nat
  | .str s => m s
  | .arr items => items.strings m
  | .obj members => members.strings m
  | _ => 0

def Items.strings (m : String → Nat) : Items → Nat
  | .nil => 0
  | .cons item rest => item.strings m + rest.strings m

def Members.strings (m : String → Nat) : Members → Nat
  | .nil => 0
  | .cons _ value rest => value.strings m + rest.strings m

end

variable {m : String → Nat}

theorem Members.strings_cons (key : String) (value : Json) (rest : Members) :
    (Members.cons key value rest).strings m = value.strings m + rest.strings m := rfl

theorem Members.strings_without_le (key : String) (members : Members) :
    (members.without key).strings m ≤ members.strings m := by
  induction members using Members.ind with
  | nil => exact Nat.le_refl _
  | cons k v rest ih =>
    rw [without_cons]
    split
    · rw [strings_cons]
      omega
    · rw [strings_cons, strings_cons]
      omega

/-- A member and what is left without its key. -/
theorem Members.strings_get?_le {key : String} {value : Json} : ∀ {members : Members},
    members.get? key = some value →
      value.strings m + (members.without key).strings m ≤ members.strings m
  | .nil, h => by cases h
  | .cons k v rest, h => by
      have hrest := rest.strings_without_le (m := m) key
      rw [get?_cons] at h
      cases hget : rest.get? key with
      | some w =>
        rw [hget, Option.some_or] at h
        cases h
        have ih := strings_get?_le hget
        rw [without_cons]
        split
        · rw [strings_cons]
          omega
        · rw [strings_cons, strings_cons]
          omega
      | none =>
        rw [hget, Option.none_or] at h
        obtain ⟨hk, hv⟩ := Option.ite_none_right_eq_some.mp h
        cases hv
        rw [without_cons, if_pos hk, strings_cons]
        omega

theorem Members.strings_dict_le (members : Members) :
    members.dict.strings m ≤ members.strings m := by
  induction members using Members.ind with
  | nil => exact Nat.le_refl _
  | cons key value rest ih =>
    have hwithout := rest.dict.strings_without_le (m := m) key
    rw [dict_cons, strings_cons, strings_cons]
    cases hget : rest.dict.get? key with
    | none =>
      rw [Option.getD_none]
      omega
    | some w =>
      have hle := strings_get?_le (m := m) hget
      rw [Option.getD_some]
      omega

/-! ## Dictionaries -/

/-- The values of all members are valid; keys may occur twice. -/
def Members.valuesValid : Members → Bool
  | .nil => true
  | .cons _ value rest => value.valid && rest.valuesValid

theorem Members.valuesValid_cons (key : String) (value : Json) (rest : Members) :
    (Members.cons key value rest).valuesValid = (value.valid && rest.valuesValid) := rfl

theorem Members.valuesValid_of_valid : ∀ {members : Members}, members.valid = true →
    members.valuesValid = true
  | .nil, _ => rfl
  | .cons key value rest, h => by
      rw [valid_cons, Bool.and_eq_true, Bool.and_eq_true] at h
      rw [valuesValid_cons, h.1.2, valuesValid_of_valid h.2]
      rfl

theorem Members.mem_keys_without {key k : String} : ∀ {members : Members},
    k ∈ (members.without key).keys → k ≠ key ∧ k ∈ members.keys
  | .nil, h => by cases h
  | .cons name value rest, h => by
      rw [without_cons] at h
      rw [keys_cons]
      split at h
      · have ih := mem_keys_without h
        exact ⟨ih.1, List.mem_cons_of_mem name ih.2⟩
      · rename_i hne
        rw [keys_cons] at h
        rcases List.mem_cons.mp h with rfl | h
        · exact ⟨hne, List.mem_cons_self⟩
        · have ih := mem_keys_without h
          exact ⟨ih.1, List.mem_cons_of_mem name ih.2⟩

theorem Members.valid_without (key : String) : ∀ {members : Members}, members.valid = true →
    (members.without key).valid = true
  | .nil, _ => rfl
  | .cons name value rest, h => by
      rw [valid_cons, Bool.and_eq_true, Bool.and_eq_true] at h
      have ih := valid_without key h.2
      rw [without_cons]
      split
      · exact ih
      · have hname : name ∉ (rest.without key).keys := fun hk => by
          have hmem := (mem_keys_without hk).2
          simp [hmem] at h
        rw [valid_cons, h.1.2, ih]
        simpa using hname

theorem Members.valid_get? {key : String} {value : Json} : ∀ {members : Members},
    members.valuesValid = true → members.get? key = some value → value.valid = true
  | .nil, _, h => by cases h
  | .cons k v rest, hvalid, h => by
      rw [valuesValid_cons, Bool.and_eq_true] at hvalid
      rw [get?_cons] at h
      cases hget : rest.get? key with
      | some w =>
        rw [hget, Option.some_or] at h
        exact Option.some.inj h ▸ valid_get? hvalid.2 hget
      | none =>
        rw [hget, Option.none_or] at h
        obtain ⟨-, hv⟩ := Option.ite_none_right_eq_some.mp h
        exact Option.some.inj hv ▸ hvalid.1

/-- A dictionary of valid values is valid. -/
theorem Members.valid_dict : ∀ {members : Members}, members.valuesValid = true →
    members.dict.valid = true
  | .nil, _ => rfl
  | .cons key value rest, h => by
      rw [valuesValid_cons, Bool.and_eq_true] at h
      have ih := valid_dict h.2
      have hkey : key ∉ (rest.dict.without key).keys := fun hk => (mem_keys_without hk).1 rfl
      have hvalue : ((rest.dict.get? key).getD value).valid = true := by
        cases hget : rest.dict.get? key with
        | none => exact h.1
        | some w => exact valid_get? (valuesValid_of_valid ih) hget
      rw [dict_cons, valid_cons, hvalue, valid_without key ih]
      simpa using hkey

/-! ## The reader -/

/-- What a string weighs in a text, without one of its quotes. -/
def quotedWeight (s : String) : Nat := weight s.toList + 1

theorem quotedWeight_ofList (cs : List Char) :
    quotedWeight (String.ofList cs) = weight cs + 1 := by
  rw [quotedWeight, String.toList_ofList]

/-- A word is no string, and a valid value. -/
theorem readWord_spec {word : List Char} {v : Json} (h : readWord word = some v) :
    v.valid = true ∧ v.strings m = 0 := by
  unfold readWord at h
  split at h
  · cases h
    exact ⟨rfl, rfl⟩
  split at h
  · cases h
    exact ⟨rfl, rfl⟩
  split at h
  · cases h
    exact ⟨rfl, rfl⟩
  split at h
  · cases h
    exact ⟨rfl, rfl⟩
  split at h
  · cases h
    exact ⟨rfl, rfl⟩
  split at h
  · cases h
    exact ⟨rfl, rfl⟩
  split at h
  · cases h
    exact ⟨rfl, rfl⟩
  · dsimp only at h
    split at h
    · split at h
      · rename_i hfloat
        cases h
        exact ⟨hfloat, rfl⟩
      · cases h
    · cases h

mutual

theorem readValue_spec : ∀ (fuel : Nat) (s : List Char) {v : Json} {rest : List Char},
    readValue fuel s = some (v, rest) →
      v.valid = true ∧ v.strings quotedWeight + weight rest ≤ weight s
  | 0, _, _, _, h => by cases h
  | fuel + 1, s, v, rest, h => by
      unfold readValue at h
      split at h
      · obtain ⟨⟨cs, t⟩, hread, heq⟩ := Option.map_eq_some_iff.mp h
        cases heq
        dsimp only
        have hle := weight_readString hread
        refine ⟨rfl, ?_⟩
        rw [Json.strings, quotedWeight_ofList, weight_cons]
        omega
      · split at h
        · rename_i t heq
          cases h
          have hle := weight_of_skipSpace heq
          refine ⟨rfl, ?_⟩
          rw [Json.strings, Items.strings, weight_cons]
          omega
        · rename_i t _ _
          obtain ⟨⟨items, u⟩, hread, heq⟩ := Option.map_eq_some_iff.mp h
          cases heq
          dsimp only
          obtain ⟨hvalid, hle⟩ := readItems_spec fuel _ hread
          have hskip := weight_skipSpace_le t
          refine ⟨hvalid, ?_⟩
          rw [Json.strings, weight_cons]
          omega
      · split at h
        · rename_i t heq
          cases h
          have hle := weight_of_skipSpace heq
          refine ⟨rfl, ?_⟩
          rw [Json.strings, Members.strings, weight_cons]
          omega
        · rename_i t _ _
          obtain ⟨⟨members, u⟩, hread, heq⟩ := Option.map_eq_some_iff.mp h
          cases heq
          dsimp only
          obtain ⟨hvalid, hle⟩ := readMembers_spec fuel _ hread
          have hskip := weight_skipSpace_le t
          have hdict := members.strings_dict_le (m := quotedWeight)
          refine ⟨Members.valid_dict hvalid, ?_⟩
          rw [Json.strings, weight_cons]
          omega
      · obtain ⟨w, hword, heq⟩ := Option.map_eq_some_iff.mp h
        cases heq
        obtain ⟨hvalid, hstrings⟩ := readWord_spec (m := quotedWeight) hword
        have hdrop := weight_dropWhile_le wordChar s
        exact ⟨hvalid, by omega⟩

theorem readItems_spec : ∀ (fuel : Nat) (s : List Char) {items : Items} {rest : List Char},
    readItems fuel s = some (items, rest) →
      items.valid = true ∧ items.strings quotedWeight + weight rest ≤ weight s
  | 0, _, _, _, h => by cases h
  | fuel + 1, s, items, rest, h => by
      unfold readItems at h
      split at h
      · rename_i item t hitem
        obtain ⟨hvalid, hle⟩ := readValue_spec fuel s hitem
        split at h
        · rename_i u hskip
          cases h
          have hrest := weight_of_skipSpace hskip
          refine ⟨by rw [Items.valid, hvalid]; rfl, ?_⟩
          rw [Items.strings, Items.strings]
          omega
        · rename_i u hskip
          obtain ⟨⟨more, w⟩, hread, heq⟩ := Option.map_eq_some_iff.mp h
          cases heq
          dsimp only
          obtain ⟨hmore, hlast⟩ := readItems_spec fuel _ hread
          have hrest := weight_of_skipSpace hskip
          have hnext := weight_skipSpace_le u
          refine ⟨by rw [Items.valid, hvalid, hmore]; rfl, ?_⟩
          rw [Items.strings]
          omega
        · cases h
      · cases h

theorem readMembers_spec : ∀ (fuel : Nat) (s : List Char) {members : Members}
    {rest : List Char}, readMembers fuel s = some (members, rest) →
      members.valuesValid = true ∧ members.strings quotedWeight + weight rest ≤ weight s
  | 0, _, _, _, h => by cases h
  | fuel + 1, s, members, rest, h => by
      unfold readMembers at h
      split at h
      · split at h
        · rename_i key t hkey
          have hkeyle := weight_readString hkey
          split at h
          · rename_i u hcolon
            have hcolonle := weight_of_skipSpace hcolon
            have hbefore := weight_skipSpace_le u
            split at h
            · rename_i value w hvalue
              obtain ⟨hvalid, hle⟩ := readValue_spec fuel _ hvalue
              rw [weight_cons]
              split at h
              · rename_i x hskip
                cases h
                have hrest := weight_of_skipSpace hskip
                refine ⟨by rw [Members.valuesValid, hvalid]; rfl, ?_⟩
                rw [Members.strings, Members.strings]
                omega
              · rename_i x hskip
                obtain ⟨⟨more, y⟩, hread, heq⟩ := Option.map_eq_some_iff.mp h
                cases heq
                dsimp only
                obtain ⟨hmore, hlast⟩ := readMembers_spec fuel _ hread
                have hrest := weight_of_skipSpace hskip
                have hnext := weight_skipSpace_le x
                refine ⟨by rw [Members.valuesValid, hvalid, hmore]; rfl, ?_⟩
                rw [Members.strings]
                omega
              · cases h
            · cases h
          · cases h
        · cases h
      · cases h

end

theorem loads_spec {s : List Char} {v : Json} (h : loads s = some v) :
    v.valid = true ∧ v.strings quotedWeight ≤ weight s := by
  unfold loads at h
  split at h
  · rename_i w rest hread
    obtain ⟨-, heq⟩ := Option.ite_none_right_eq_some.mp h
    cases heq
    obtain ⟨hvalid, hle⟩ := readValue_spec _ _ hread
    have hskip := weight_skipSpace_le s
    exact ⟨hvalid, by omega⟩
  · cases h

/-! ## Texts with escaped halves -/

theorem weight_fourDigits_le (code : Nat) : weight (fourDigits code) ≤ 8 :=
  weight_le (fourDigits code)

theorem weight_cons_le {s : List Char} {n : Nat} (c : Char) (h : weight s ≤ 2 * n) :
    weight (c :: s) ≤ 2 * (n + 1) := by
  have hc := charWeight_le_two c
  rw [weight_cons]
  omega

/-- Spelling out at most doubles the weight of a character. -/
theorem weight_widen_le (paired : Bool) (s : List Char) :
    weight (widen paired s) ≤ 2 * s.length := by
  have hback : charWeight '\\' = 1 := by decide
  fun_induction widen paired s with
  | case1 paired a b c d rest _ hhex ih =>
    simp only [weight_cons, hback, List.length_cons]
    omega
  | case2 paired a b c d rest code _ hhex _ _ ih =>
    have hdigits := weight_fourDigits_le code
    have hu := charWeight_le_two 'u'
    simp only [weight_cons, weight_append, hback, List.length_cons]
    omega
  | case3 paired a b c d rest code _ hhex _ _ ih =>
    exact weight_cons_le _ (weight_cons_le _ (weight_cons_le a (weight_cons_le b
      (weight_cons_le c (weight_cons_le d ih)))))
  | case4 paired a b c d rest hhex ih =>
    exact weight_cons_le _ (weight_cons_le _ (weight_cons_le a (weight_cons_le b
      (weight_cons_le c (weight_cons_le d ih)))))
  | case5 paired rest ih =>
    simp only [weight_cons, hback, List.length_cons]
    omega
  | case6 paired c rest _ _ ih => exact weight_cons_le _ (weight_cons_le c ih)
  | case7 paired c rest _ _ _ ih => exact weight_cons_le c ih
  | case8 => exact Nat.le_refl _

/-- Spelled out, each character weighs two. -/
theorem quotedWeight_widenString (s : String) :
    quotedWeight (widenString s) = 2 * s.toList.length + 1 := by
  have hchars : ∀ cs : List Char, weight (cs.flatMap widenChar) = 2 * cs.length := by
    intro cs
    induction cs with
    | nil => rfl
    | cons c cs ih =>
      have hc : weight (widenChar c) = 2 := by
        unfold widenChar
        split
        · decide
        · rename_i hback
          rw [weight_cons, charWeight, if_neg hback, weight_nil]
      rw [List.flatMap_cons, weight_append, hc, ih, List.length_cons]
      omega
  rw [widenString, quotedWeight_ofList, hchars]

def doubleLength (s : String) : Nat := 2 * s.toList.length + 1

mutual

theorem Json.strings_widen : ∀ v : Json, v.widen.strings quotedWeight = v.strings doubleLength
  | .str s => quotedWeight_widenString s
  | .arr items => items.strings_widen
  | .obj members => members.strings_widen
  | .null => rfl
  | .bool _ => rfl
  | .int _ => rfl
  | .float _ => rfl

theorem Items.strings_widen : ∀ items : Items,
    items.widen.strings quotedWeight = items.strings doubleLength
  | .nil => rfl
  | .cons item rest => by
      rw [Items.widen, Items.strings, Items.strings, item.strings_widen, rest.strings_widen]

theorem Members.strings_widen : ∀ members : Members,
    members.widen.strings quotedWeight = members.strings doubleLength
  | .nil => rfl
  | .cons key value rest => by
      rw [Members.widen, Members.strings, Members.strings, value.strings_widen,
        rest.strings_widen]

end

/-- **A value that was loaded can be printed and loaded again.** -/
theorem valid_of_load {s : List Char} {v : Json} (h : load s = .value v) : v.valid = true := by
  rw [← v.valid_widen]
  exact (loads_spec (load_eq_value.mp h)).1

/-- A string in an object is shorter than the text of the object. -/
theorem length_lt_of_load {s : List Char} {members : Members} {key t : String}
    (h : load s = .value (.obj members)) (hget : members.get? key = some (.str t)) :
    t.toList.length < s.length := by
  have hspelled := (loads_spec (load_eq_value.mp h)).2
  have hwiden := weight_widen_le false s
  have hmember := Members.strings_get?_le (m := doubleLength) hget
  rw [Json.strings_widen, Json.strings] at hspelled
  rw [Json.strings, doubleLength] at hmember
  omega

end NeuralHub.Lib
