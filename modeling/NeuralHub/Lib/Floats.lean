/-
NeuralHub.Lib.Floats — the floats in a value that was loaded.

`load` leaves a float as it is written. `json.loads` makes a double of it
and `json.dumps` prints its `repr`, so that `2.50` becomes `2.5` and `1e400`
becomes `Infinity`. Doubles are a parameter here: a `FloatReading` says what
`float` makes of a literal, and of it is used only that `repr` gives a
literal which is read as the same double.

`Json.floats` reads every float of a value. It changes no member's key, no
string and nothing else that is no float, and to do it twice is to do it
once (`Json.floats_floats`), so what it gives is loaded as it was printed
(`FloatReading.load_laid`).
-/
import NeuralHub.Lib.LoadedJson

namespace NeuralHub.Lib

/-- What `float` makes of a literal. -/
structure FloatReading where
  read : List Char → PyFloat
  /-- `float(repr(x)) == x` -/
  repr_read : ∀ word x, isFloat word = true → read word = .finite x →
    isFloat x.text = true ∧ read x.text = .finite x

mutual

/-- The value with the doubles that its floats are. -/
def Json.floats (fl : FloatReading) : Json → Json
  | .float (.finite x) => .float (fl.read x.text)
  | .arr items => .arr (items.floats fl)
  | .obj members => .obj (members.floats fl)
  | v => v

def Items.floats (fl : FloatReading) : Items → Items
  | .nil => .nil
  | .cons item rest => .cons (item.floats fl) (rest.floats fl)

def Members.floats (fl : FloatReading) : Members → Members
  | .nil => .nil
  | .cons key value rest => .cons key (value.floats fl) (rest.floats fl)

end

/-- `json.loads`, with doubles. -/
def FloatReading.load (fl : FloatReading) (text : List Char) : Loaded :=
  match Lib.load text with
  | .value v => .value (v.floats fl)
  | other => other

variable {fl : FloatReading}

/-! ## What is not changed -/

theorem Members.get?_floats (key : String) (members : Members) :
    (members.floats fl).get? key = (members.get? key).map (Json.floats fl) := by
  refine Members.ind (P := fun members =>
    (members.floats fl).get? key = (members.get? key).map (Json.floats fl)) rfl ?_ members
  intro name value rest ih
  rw [Members.floats, Members.get?_cons, Members.get?_cons, ih, Option.map_or]
  split
  · rfl
  · rfl

theorem Members.keys_floats (members : Members) : (members.floats fl).keys = members.keys := by
  refine Members.ind (P := fun members => (members.floats fl).keys = members.keys) rfl ?_ members
  intro name value rest ih
  rw [Members.floats, Members.keys_cons, Members.keys_cons, ih]

theorem Json.floats_eq_null {v : Json} : v.floats fl = .null ↔ v = .null := by
  cases v with
  | float x => cases x <;> simp [Json.floats]
  | _ => simp [Json.floats]

/-! ## Reading twice -/

mutual

theorem Json.valid_floats : ∀ v : Json, v.valid = true → (v.floats fl).valid = true
  | .float (.finite x), h => by
      rw [Json.floats]
      cases hread : fl.read x.text with
      | finite y => exact (fl.repr_read x.text y h hread).1
      | _ => rfl
  | .float .nan, _ => rfl
  | .float .inf, _ => rfl
  | .float .negInf, _ => rfl
  | .arr items, h => items.valid_floats h
  | .obj members, h => members.valid_floats h
  | .null, _ => rfl
  | .bool _, _ => rfl
  | .int _, _ => rfl
  | .str _, _ => rfl

theorem Items.valid_floats : ∀ items : Items, items.valid = true → (items.floats fl).valid = true
  | .nil, _ => rfl
  | .cons item rest, h => by
      rw [Items.valid, Bool.and_eq_true] at h
      rw [Items.floats, Items.valid, item.valid_floats h.1, rest.valid_floats h.2]
      rfl

theorem Members.valid_floats : ∀ members : Members, members.valid = true →
    (members.floats fl).valid = true
  | .nil, _ => rfl
  | .cons key value rest, h => by
      simp only [Members.valid, Bool.and_eq_true] at h
      simp only [Members.floats, Members.valid, Bool.and_eq_true, rest.keys_floats]
      exact ⟨⟨h.1.1, value.valid_floats h.1.2⟩, rest.valid_floats h.2⟩

end

mutual

theorem Json.floats_floats : ∀ v : Json, v.valid = true → (v.floats fl).floats fl = v.floats fl
  | .float (.finite x), h => by
      rw [Json.floats]
      cases hread : fl.read x.text with
      | finite y =>
        have hy : fl.read y.text = .finite y := (fl.repr_read x.text y h hread).2
        rw [Json.floats, hy]
      | _ => rfl
  | .float .nan, _ => rfl
  | .float .inf, _ => rfl
  | .float .negInf, _ => rfl
  | .arr items, h => congrArg Json.arr (items.floats_floats h)
  | .obj members, h => congrArg Json.obj (members.floats_floats h)
  | .null, _ => rfl
  | .bool _, _ => rfl
  | .int _, _ => rfl
  | .str _, _ => rfl

theorem Items.floats_floats : ∀ items : Items, items.valid = true →
    (items.floats fl).floats fl = items.floats fl
  | .nil, _ => rfl
  | .cons item rest, h => by
      rw [Items.valid, Bool.and_eq_true] at h
      simp only [Items.floats, item.floats_floats h.1, rest.floats_floats h.2]

theorem Members.floats_floats : ∀ members : Members, members.valid = true →
    (members.floats fl).floats fl = members.floats fl
  | .nil, _ => rfl
  | .cons key value rest, h => by
      simp only [Members.valid, Bool.and_eq_true] at h
      simp only [Members.floats, value.floats_floats h.1.2, rest.floats_floats h.2]

end

/-! ## Loading -/

namespace FloatReading

theorem load_of_value {s : List Char} {v : Json} (h : Lib.load s = .value v) :
    fl.load s = .value (v.floats fl) := by
  rw [load, h]

theorem load_of_invalid {s : List Char} (h : Lib.load s = .invalid) : fl.load s = .invalid := by
  rw [load, h]

theorem load_of_halves {s : List Char} (h : Lib.load s = .halves) : fl.load s = .halves := by
  rw [load, h]

/-- A value with doubles is loaded as it was printed. -/
theorem load_laid {lay : Layout} {v : Json} (hvalid : v.valid = true) :
    fl.load ((v.floats fl).laid lay 0) = .value (v.floats fl) := by
  rw [load_of_value (Lib.load_laid (v.valid_floats hvalid)), v.floats_floats hvalid]

theorem load_eq_value {s : List Char} {w : Json} (h : fl.load s = .value w) :
    ∃ v, Lib.load s = .value v ∧ w = v.floats fl := by
  unfold load at h
  cases hload : Lib.load s with
  | value v =>
    rw [hload] at h
    exact ⟨v, rfl, (Loaded.value.inj h).symm⟩
  | invalid =>
    rw [hload] at h
    cases h
  | halves =>
    rw [hload] at h
    cases h

end FloatReading

/-! ## Two literals -/

/-- A float as it is written. -/
def writtenFloat (word : List Char) : PyFloat :=
  if h : word.all floatChar = true ∧ word.any (fun c => !intChar c) = true then
    .finite ⟨word, h.1, h.2⟩
  else .nan

theorem text_of_writtenFloat {word : List Char} {x : FiniteFloat}
    (h : writtenFloat word = .finite x) : x.text = word := by
  unfold writtenFloat at h
  split at h
  · cases h
    rfl
  · cases h

/-- A reading that knows two literals that no `repr` gives, and takes all others as they are. -/
def twoLiterals : FloatReading where
  read word :=
    if word = "2.50".toList then writtenFloat "2.5".toList
    else if word = "1e400".toList then .inf
    else writtenFloat word
  repr_read word x hfloat hread := by
    split at hread
    · rw [text_of_writtenFloat hread]
      exact ⟨by decide +kernel, hread⟩
    · rename_i hhalf
      split at hread
      · cases hread
      · rename_i hlarge
        rw [text_of_writtenFloat hread, if_neg hhalf, if_neg hlarge]
        exact ⟨hfloat, hread⟩

example : twoLiterals.load "[1, 2.50, 1e400]".toList =
    .value (.arr (.cons (.int 1) (.cons (.float (writtenFloat "2.5".toList))
      (.cons (.float .inf) .nil)))) := by decide +kernel

end NeuralHub.Lib
