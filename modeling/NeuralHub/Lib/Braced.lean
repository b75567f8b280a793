/-
NeuralHub.Lib.Braced — the shape that JSON texts have for a reader who looks
at quotes and braces only.

In a `Braced` text every string is closed and the braces outside of strings
are balanced. An `ObjectText` is such a text between two braces. What
`json.loads` reads as an object without white space around it is one
(`objectText_of_loads`); the converse fails, since nothing is asked of what
stands between strings and braces.
-/
import Mathlib.Data.List.Basic
import Mathlib.Data.List.TakeWhile
import NeuralHub.Lib.JsonLayout

namespace NeuralHub.Lib

/-- What stands between the quotes of a string. -/
inductive StringBody : List Char → Prop
  | nil : StringBody []
  | plain {c : Char} {s : List Char} (hquote : c ≠ '"') (hback : c ≠ '\\') (hs : StringBody s) :
      StringBody (c :: s)
  | escape {c : Char} {s : List Char} (hs : StringBody s) : StringBody ('\\' :: c :: s)

inductive Braced : List Char → Prop
  | nil : Braced []
  | other {c : Char} {s : List Char} (hc : c ≠ '"' ∧ c ≠ '\x7b' ∧ c ≠ '\x7d') (hs : Braced s) :
      Braced (c :: s)
  | string {body s : List Char} (hbody : StringBody body) (hs : Braced s) :
      Braced ('"' :: (body ++ '"' :: s))
  | object {body s : List Char} (hbody : Braced body) (hs : Braced s) :
      Braced ('\x7b' :: (body ++ '\x7d' :: s))

def ObjectText (d : List Char) : Prop := ∃ body, d = '\x7b' :: (body ++ ['\x7d']) ∧ Braced body

variable {s t rest : List Char}

theorem ObjectText.braced (h : ObjectText s) : Braced s := by
  obtain ⟨body, rfl, hbody⟩ := h
  exact .object hbody .nil

theorem Braced.append (hs : Braced s) (ht : Braced t) : Braced (s ++ t) := by
  induction hs with
  | nil => exact ht
  | other hc _ ih => exact .other hc ih
  | string hbody _ ih =>
    rw [List.cons_append, List.append_assoc]
    exact .string hbody ih
  | object hbody _ _ ih =>
    rw [List.cons_append, List.append_assoc]
    exact .object hbody ih

theorem braced_of_all (h : ∀ c ∈ s, c ≠ '"' ∧ c ≠ '\x7b' ∧ c ≠ '\x7d') : Braced s := by
  induction s with
  | nil => exact .nil
  | cons c s ih =>
    exact .other (h c List.mem_cons_self) (ih fun x hx => h x (List.mem_cons_of_mem c hx))

theorem other_of_spaceChar {c : Char} (h : spaceChar c = true) :
    c ≠ '"' ∧ c ≠ '\x7b' ∧ c ≠ '\x7d' := by
  refine ⟨?_, ?_, ?_⟩ <;> rintro rfl <;> cases h

theorem other_of_wordChar {c : Char} (h : wordChar c = true) :
    c ≠ '"' ∧ c ≠ '\x7b' ∧ c ≠ '\x7d' := by
  refine ⟨?_, ?_, ?_⟩ <;> rintro rfl <;> exact absurd h (by decide)

/-- White space in front of a text. -/
theorem skipSpace_split (s : List Char) : ∃ ws, s = ws ++ skipSpace s ∧ Braced ws :=
  ⟨s.takeWhile spaceChar, List.takeWhile_append_dropWhile.symm,
    braced_of_all fun _ hc => other_of_spaceChar (List.mem_takeWhile_imp hc)⟩

/-! ## Strings -/

theorem hexDigit?_plain {c : Char} {d : Nat} (h : hexDigit? c = some d) : c ≠ '"' ∧ c ≠ '\\' := by
  have hquote : hexDigit? '"' = none := by decide
  have hback : hexDigit? '\\' = none := by decide
  constructor
  · rintro rfl
    rw [hquote] at h
    cases h
  · rintro rfl
    rw [hback] at h
    cases h

theorem readHex_split {code : Nat} (h : readHex s = some (code, rest)) :
    ∃ digits, s = digits ++ rest ∧ ∀ c ∈ digits, c ≠ '"' ∧ c ≠ '\\' := by
  unfold readHex at h
  split at h
  · rename_i a b c d t
    obtain ⟨_, ha, h⟩ := Option.bind_eq_some_iff.mp h
    obtain ⟨_, hb, h⟩ := Option.bind_eq_some_iff.mp h
    obtain ⟨_, hc, h⟩ := Option.bind_eq_some_iff.mp h
    obtain ⟨_, hd, h⟩ := Option.bind_eq_some_iff.mp h
    refine ⟨[a, b, c, d], by rw [← (Prod.mk.inj (Option.some.inj h)).2]; rfl, ?_⟩
    intro x hx
    simp only [List.mem_cons, List.not_mem_nil, or_false] at hx
    rcases hx with rfl | rfl | rfl | rfl
    · exact hexDigit?_plain ha
    · exact hexDigit?_plain hb
    · exact hexDigit?_plain hc
    · exact hexDigit?_plain hd
  · cases h

theorem StringBody.plains {digits body : List Char} (h : ∀ c ∈ digits, c ≠ '"' ∧ c ≠ '\\')
    (hbody : StringBody body) : StringBody (digits ++ body) := by
  induction digits with
  | nil => exact hbody
  | cons c digits ih =>
    obtain ⟨hquote, hback⟩ := h c List.mem_cons_self
    exact .plain hquote hback (ih fun x hx => h x (List.mem_cons_of_mem c hx))

/-- A character of a string that goes on behind it. -/
theorem readStringChar_split {c : Char} (h : readStringChar s = some (c, rest))
    (hquote : s.head? ≠ some '"') (hrest : rest ≠ []) :
    ∃ front, s = front ++ rest ∧ ∀ body, StringBody body → StringBody (front ++ body) := by
  unfold readStringChar at h
  split at h
  · rename_i u
    split at h
    · rename_i code v hhex
      obtain ⟨digits, rfl, hdigits⟩ := readHex_split hhex
      split at h
      · unfold readLowSurrogate at h
        split at h
        · rename_i w
          split at h
          · rename_i low x hlow
            obtain ⟨more, rfl, hmore⟩ := readHex_split hlow
            obtain ⟨-, heq⟩ := Option.ite_none_right_eq_some.mp h
            obtain rfl := (Prod.mk.inj (Option.some.inj heq)).2
            refine ⟨'\\' :: 'u' :: (digits ++ '\\' :: 'u' :: more), by simp, fun body hbody => ?_⟩
            have hlast : StringBody ('\\' :: 'u' :: (more ++ body)) :=
              .escape (.plains hmore hbody)
            simpa using StringBody.escape (c := 'u') (.plains hdigits hlast)
          · cases h
        · cases h
      · split at h
        · cases h
        · cases h
          exact ⟨'\\' :: 'u' :: digits, by simp, fun body hbody => .escape (.plains hdigits hbody)⟩
    · cases h
  · rename_i letter u _
    obtain ⟨d, -, heq⟩ := Option.map_eq_some_iff.mp h
    cases heq
    exact ⟨['\\', letter], rfl, fun body hbody => .escape hbody⟩
  · rename_i d u hnotU hnotEscape
    split at h
    · cases h
    · cases h
      have hback : c ≠ '\\' := by
        rintro rfl
        cases rest with
        | nil => exact hrest rfl
        | cons x rest => exact hnotEscape x rest rfl rfl
      exact ⟨[c], rfl, fun body hbody => .plain (fun heq => hquote (by rw [heq]; rfl)) hback hbody⟩
  · cases h

theorem readString_split {fuel : Nat} {cs : List Char} (h : readString fuel s = some (cs, rest)) :
    ∃ body, s = body ++ '"' :: rest ∧ StringBody body := by
  induction fuel generalizing s cs with
  | zero =>
    unfold readString at h
    split at h
    · cases h
      exact ⟨[], rfl, .nil⟩
    · cases h
    · rename_i heq _
      cases heq
  | succ fuel ih =>
    unfold readString at h
    split at h
    · cases h
      exact ⟨[], rfl, .nil⟩
    · cases h
    · rename_i s _ _ n heq hnotQuote
      cases heq
      obtain ⟨⟨c, t⟩, hc, h⟩ := Option.bind_eq_some_iff.mp h
      obtain ⟨⟨ds, u⟩, hds, h⟩ := Option.bind_eq_some_iff.mp h
      cases h
      obtain ⟨body, ht, hbody⟩ := ih hds
      have hhead : s.head? ≠ some '"' := by
        intro hhead
        obtain ⟨v, rfl⟩ := List.head?_eq_some_iff.mp hhead
        exact hnotQuote v rfl
      obtain ⟨front, hs, hfront⟩ := readStringChar_split hc hhead (by rw [ht]; simp)
      exact ⟨front ++ body, by rw [hs, ht, List.append_assoc], hfront body hbody⟩

/-! ## Values -/

theorem braced_string {fuel : Nat} {cs : List Char} (h : readString fuel s = some (cs, rest)) :
    ∃ text, '"' :: s = text ++ rest ∧ Braced text := by
  obtain ⟨body, rfl, hbody⟩ := readString_split h
  exact ⟨'"' :: (body ++ ['"']), by simp, .string hbody .nil⟩

mutual

theorem readValue_split : ∀ (fuel : Nat) (s : List Char) {v : Json} {rest : List Char},
    readValue fuel s = some (v, rest) → ∃ text, s = text ++ rest ∧ Braced text ∧
      (s.head? = some '\x7b' → ObjectText text)
  | 0, _, _, _, h => by cases h
  | fuel + 1, s, v, rest, h => by
      unfold readValue at h
      split at h
      · obtain ⟨⟨cs, t⟩, hread, heq⟩ := Option.map_eq_some_iff.mp h
        cases heq
        obtain ⟨text, htext, hbraced⟩ := braced_string hread
        exact ⟨text, htext, hbraced, fun hhead => by cases hhead⟩
      · rename_i u
        obtain ⟨ws, hws, hspace⟩ := skipSpace_split u
        split at h
        · rename_i t heq
          cases h
          refine ⟨'[' :: (ws ++ [']']), by rw [hws, heq]; simp, ?_, fun hhead => by cases hhead⟩
          exact .other (by decide) (hspace.append (.other (by decide) .nil))
        · obtain ⟨⟨items, t⟩, hread, heq⟩ := Option.map_eq_some_iff.mp h
          cases heq
          obtain ⟨text, htext, hbraced⟩ := readItems_split fuel _ hread
          refine ⟨'[' :: (ws ++ text), ?_, .other (by decide) (hspace.append hbraced),
            fun hhead => by cases hhead⟩
          rw [List.cons_append, List.append_assoc, ← htext, ← hws]
      · rename_i u
        obtain ⟨ws, hws, hspace⟩ := skipSpace_split u
        split at h
        · rename_i t heq
          cases h
          have hobject : ObjectText ('\x7b' :: (ws ++ ['\x7d'])) := ⟨ws, rfl, hspace⟩
          exact ⟨_, by rw [hws, heq]; simp, hobject.braced, fun _ => hobject⟩
        · obtain ⟨⟨members, t⟩, hread, heq⟩ := Option.map_eq_some_iff.mp h
          cases heq
          obtain ⟨body, hbody, hbraced⟩ := readMembers_split fuel _ hread
          have hobject : ObjectText ('\x7b' :: ((ws ++ body) ++ ['\x7d'])) :=
            ⟨ws ++ body, rfl, hspace.append hbraced⟩
          exact ⟨_, by rw [hws, hbody]; simp, hobject.braced, fun _ => hobject⟩
      · rename_i hnotObject
        obtain ⟨w, hword, heq⟩ := Option.map_eq_some_iff.mp h
        cases heq
        refine ⟨s.takeWhile wordChar, List.takeWhile_append_dropWhile.symm,
          braced_of_all fun c hc => other_of_wordChar (List.mem_takeWhile_imp hc), ?_⟩
        intro hhead
        obtain ⟨u, rfl⟩ := List.head?_eq_some_iff.mp hhead
        exact absurd rfl (hnotObject u)

theorem readItems_split : ∀ (fuel : Nat) (s : List Char) {items : Items} {rest : List Char},
    readItems fuel s = some (items, rest) → ∃ text, s = text ++ rest ∧ Braced text
  | 0, _, _, _, h => by cases h
  | fuel + 1, s, items, rest, h => by
      unfold readItems at h
      split at h
      · rename_i item t hitem
        obtain ⟨value, rfl, hvalue, -⟩ := readValue_split fuel s hitem
        obtain ⟨ws, hws, hspace⟩ := skipSpace_split t
        split at h
        · rename_i u hskip
          cases h
          refine ⟨value ++ (ws ++ [']']), by rw [hws, hskip]; simp, ?_⟩
          exact hvalue.append (hspace.append (.other (by decide) .nil))
        · rename_i u hskip
          obtain ⟨⟨more, v⟩, hread, heq⟩ := Option.map_eq_some_iff.mp h
          cases heq
          obtain ⟨next, hnext, hmore⟩ := readItems_split fuel _ hread
          obtain ⟨gap, hgap, hgapSpace⟩ := skipSpace_split u
          refine ⟨value ++ (ws ++ ',' :: (gap ++ next)), ?_, ?_⟩
          · rw [hws, hskip, hgap, hnext]
            simp
          · exact hvalue.append (hspace.append (.other (by decide) (hgapSpace.append hmore)))
        · cases h
      · cases h

theorem readMembers_split : ∀ (fuel : Nat) (s : List Char) {members : Members} {rest : List Char},
    readMembers fuel s = some (members, rest) →
      ∃ body, s = body ++ '\x7d' :: rest ∧ Braced body
  | 0, _, _, _, h => by cases h
  | fuel + 1, s, members, rest, h => by
      unfold readMembers at h
      split at h
      · rename_i u
        split at h
        · rename_i key t hkey
          obtain ⟨name, hname, hnameBraced⟩ := braced_string hkey
          rw [hname]
          obtain ⟨before, hbefore, hbeforeSpace⟩ := skipSpace_split t
          split at h
          · rename_i w hcolon
            obtain ⟨behind, hbehind, hbehindSpace⟩ := skipSpace_split w
            split at h
            · rename_i value x hread
              obtain ⟨text, htext, hvalue, -⟩ := readValue_split fuel _ hread
              obtain ⟨ws, hws, hspace⟩ := skipSpace_split x
              -- the member up to what follows its value
              have hmember : t = before ++ ':' :: (behind ++ (text ++ x)) := by
                rw [← htext, ← hbehind, ← hcolon, ← hbefore]
              have hbraced {more : List Char} (hmore : Braced more) :
                  Braced (name ++ (before ++ ':' :: (behind ++ (text ++ (ws ++ more))))) :=
                hnameBraced.append (hbeforeSpace.append (.other (by decide)
                  (hbehindSpace.append (hvalue.append (hspace.append hmore)))))
              split at h
              · rename_i y hskip
                cases h
                refine ⟨_, ?_, hbraced .nil⟩
                rw [hmember, hws, hskip]
                simp
              · rename_i y hskip
                obtain ⟨⟨more, z⟩, hnext, heq⟩ := Option.map_eq_some_iff.mp h
                cases heq
                obtain ⟨body, hbody, hmore⟩ := readMembers_split fuel _ hnext
                obtain ⟨gap, hgap, hgapSpace⟩ := skipSpace_split y
                refine ⟨_, ?_, hbraced (.other (c := ',') (by decide) (hgapSpace.append hmore))⟩
                rw [hmember, hws, hskip, hgap, hbody]
                simp
              · cases h
            · cases h
          · cases h
        · cases h
      · cases h

end

/-- **What is read as an object is an object text**, if it begins and ends with
the braces. -/
theorem objectText_of_loads {d : List Char} {v : Json} (h : loads d = some v)
    (hhead : d.head? = some '\x7b') (hlast : d.getLast? = some '\x7d') : ObjectText d := by
  unfold loads at h
  split at h
  · rename_i value rest hread
    obtain ⟨hrest, -⟩ := Option.ite_none_right_eq_some.mp h
    obtain ⟨u, rfl⟩ := List.head?_eq_some_iff.mp hhead
    rw [skipSpace_cons (by decide)] at hread
    obtain ⟨text, htext, -, hobject⟩ := readValue_split _ _ hread
    have hnil : rest = [] := by
      by_contra hne
      rw [htext, List.getLast?_append_of_ne_nil _ hne] at hlast
      have hspace := List.dropWhile_eq_nil_iff.mp hrest _ (List.mem_of_getLast? hlast)
      exact absurd hspace (by decide)
    rw [hnil, List.append_nil] at htext
    rw [htext]
    exact hobject rfl
  · cases h

end NeuralHub.Lib
