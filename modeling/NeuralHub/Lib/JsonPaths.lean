/-
NeuralHub.Lib.JsonPaths — what stands at a position of a JSON value, and
what is left to see when some keys hide what is under them.

A position is a list of numbers: the n-th item of an array, the n-th member
of an object. A key counts for everything in it up to the next object, so
the items of an array stand under the key of the array. `visible` is the
shape at a position, none if a key on the way hides it, and `redact` puts a
mark in place of what is hidden.

`redact_eq_iff`: two values are redacted to the same value exactly when the
same is visible in them at every position. Nothing is needed of the keys;
an object may even have one twice.
-/
import NeuralHub.Lib.JsonReader

namespace NeuralHub.Lib

/-- A value without what is inside of it. -/
inductive Shape
  | leaf (value : Json)
  | list (length : Nat)
  | dict (keys : List String)

def Json.shape : Json → Shape
  | .arr items => .list items.toList.length
  | .obj members => .dict members.keys
  | .null => .leaf .null
  | .bool b => .leaf (.bool b)
  | .int n => .leaf (.int n)
  | .float x => .leaf (.float x)
  | .str s => .leaf (.str s)

/-- The values inside of a value, each with its key. -/
def Json.children (key : String) : Json → List (String × Json)
  | .arr items => items.toList.map fun item => (key, item)
  | .obj members => members.toList
  | _ => []

/-- What is at a position, if no key on the way hides it. -/
def visible (hidden : String → Bool) (key : String) (value : Json) : List Nat → Option Shape
  | [] => if hidden key then none else some value.shape
  | n :: position =>
    if hidden key then none
    else (value.children key)[n]?.bind fun child => visible hidden child.1 child.2 position

mutual

/-- The mark in place of every value whose key is hidden. -/
def redact (hidden : String → Bool) (mark : Json) (key : String) : Json → Json
  | .arr items => if hidden key then mark else .arr (redactItems hidden mark key items)
  | .obj members => if hidden key then mark else .obj (redactMembers hidden mark members)
  | .null => if hidden key then mark else .null
  | .bool b => if hidden key then mark else .bool b
  | .int n => if hidden key then mark else .int n
  | .float x => if hidden key then mark else .float x
  | .str s => if hidden key then mark else .str s

def redactItems (hidden : String → Bool) (mark : Json) (key : String) : Items → Items
  | .nil => .nil
  | .cons item rest => .cons (redact hidden mark key item) (redactItems hidden mark key rest)

def redactMembers (hidden : String → Bool) (mark : Json) : Members → Members
  | .nil => .nil
  | .cons key value rest =>
      .cons key (redact hidden mark key value) (redactMembers hidden mark rest)

end

variable {hidden : String → Bool} {mark : Json} {key : String} {v w : Json}

theorem visible_nil : visible hidden key v [] = if hidden key then none else some v.shape := rfl

theorem visible_cons (n : Nat) (position : List Nat) : visible hidden key v (n :: position) =
    if hidden key then none
    else (v.children key)[n]?.bind fun child => visible hidden child.1 child.2 position := rfl

/-! ## Redacted values -/

theorem redact_of_hidden (h : hidden key = true) (v : Json) : redact hidden mark key v = mark := by
  cases v <;> simp [redact, h]

theorem redact_arr (h : hidden key = false) (items : Items) :
    redact hidden mark key (.arr items) = .arr (redactItems hidden mark key items) := by
  simp [redact, h]

theorem redact_obj (h : hidden key = false) (members : Members) :
    redact hidden mark key (.obj members) = .obj (redactMembers hidden mark members) := by
  simp [redact, h]

theorem toList_redactItems (items : Items) : (redactItems hidden mark key items).toList =
    items.toList.map (redact hidden mark key) := by
  cases items with
  | nil => rfl
  | cons item rest =>
    exact congrArg (redact hidden mark key item :: ·) (toList_redactItems rest)

theorem toList_redactMembers (members : Members) : (redactMembers hidden mark members).toList =
    members.toList.map fun m => (m.1, redact hidden mark m.1 m.2) := by
  cases members with
  | nil => rfl
  | cons name value rest =>
    exact congrArg ((name, redact hidden mark name value) :: ·) (toList_redactMembers rest)

theorem shape_redact (h : hidden key = false) (v : Json) :
    (redact hidden mark key v).shape = v.shape := by
  cases v with
  | arr items =>
    rw [redact_arr h]
    simp [Json.shape, toList_redactItems]
  | obj members =>
    rw [redact_obj h]
    simp [Json.shape, Members.keys, toList_redactMembers]
  | _ => simp [redact, h]

theorem children_redact (h : hidden key = false) (v : Json) :
    (redact hidden mark key v).children key =
      (v.children key).map fun child => (child.1, redact hidden mark child.1 child.2) := by
  cases v with
  | arr items =>
    rw [redact_arr h]
    simp [Json.children, toList_redactItems]
  | obj members =>
    rw [redact_obj h]
    simp [Json.children, toList_redactMembers]
  | _ => simp [redact, h, Json.children]

/-- What is visible is left as it is. -/
theorem visible_redact (mark : Json) (position : List Nat) (key : String) (v : Json) :
    visible hidden key (redact hidden mark key v) position = visible hidden key v position := by
  induction position generalizing key v with
  | nil =>
    cases h : hidden key with
    | true => simp [visible_nil, h]
    | false => simp [visible_nil, h, shape_redact h]
  | cons n position ih =>
    cases h : hidden key with
    | true => simp [visible_cons, h]
    | false =>
      have hchild : ∀ child : Option (String × Json),
          (child.map fun child => (child.1, redact hidden mark child.1 child.2)).bind
              (fun child => visible hidden child.1 child.2 position) =
            child.bind fun child => visible hidden child.1 child.2 position := by
        intro child
        cases child with
        | none => rfl
        | some child => exact ih child.1 child.2
      simp only [visible_cons, h, children_redact h, List.getElem?_map, hchild]

/-! ## What is not visible makes no difference -/

/-- The same is visible in the items of two arrays, or in the members of two objects. -/
def SameChildren (hidden : String → Bool) (xs ys : List (String × Json)) : Prop :=
  ∀ (n : Nat) (position : List Nat),
    (xs[n]?.bind fun child => visible hidden child.1 child.2 position) =
      ys[n]?.bind fun child => visible hidden child.1 child.2 position

theorem SameChildren.head {x y : String × Json} {xs ys : List (String × Json)}
    (h : SameChildren hidden (x :: xs) (y :: ys)) (position : List Nat) :
    visible hidden x.1 x.2 position = visible hidden y.1 y.2 position := h 0 position

theorem SameChildren.tail {x y : String × Json} {xs ys : List (String × Json)}
    (h : SameChildren hidden (x :: xs) (y :: ys)) : SameChildren hidden xs ys :=
  fun n position => h (n + 1) position

theorem shape_eq (hkey : hidden key = false)
    (h : ∀ position, visible hidden key v position = visible hidden key w position) :
    v.shape = w.shape := by
  simpa [visible_nil, hkey] using h []

theorem sameChildren (hkey : hidden key = false)
    (h : ∀ position, visible hidden key v position = visible hidden key w position) :
    SameChildren hidden (v.children key) (w.children key) := by
  intro n position
  simpa [visible_cons, hkey] using h (n :: position)

/-- A value of the same shape that has nothing inside is the same value. -/
theorem eq_of_leaf {value : Json} (hv : v.shape = .leaf value) (h : v.shape = w.shape) :
    v = w := by
  cases v <;> cases w <;> simp_all [Json.shape]

mutual

theorem redact_ext (key : String) (v w : Json)
    (h : ∀ position, visible hidden key v position = visible hidden key w position) :
    redact hidden mark key v = redact hidden mark key w := by
  cases hkey : hidden key with
  | true => rw [redact_of_hidden hkey, redact_of_hidden hkey]
  | false =>
    have hshape := shape_eq hkey h
    have hchildren := sameChildren hkey h
    cases v with
    | arr items =>
      cases w with
      | arr items' =>
        have hlength : items.toList.length = items'.toList.length := by
          simpa [Json.shape] using hshape
        rw [redact_arr hkey, redact_arr hkey, redactItems_ext key items items' hlength hchildren]
      | _ => simp [Json.shape] at hshape
    | obj members =>
      cases w with
      | obj members' =>
        have hkeys : members.keys = members'.keys := by simpa [Json.shape] using hshape
        rw [redact_obj hkey, redact_obj hkey, redactMembers_ext members members' hkeys hchildren]
      | _ => simp [Json.shape] at hshape
    | _ => rw [eq_of_leaf rfl hshape]

theorem redactItems_ext (key : String) : ∀ items items' : Items,
    items.toList.length = items'.toList.length →
    SameChildren hidden (items.toList.map fun item => (key, item))
      (items'.toList.map fun item => (key, item)) →
    redactItems hidden mark key items = redactItems hidden mark key items'
  | .nil, .nil, _, _ => rfl
  | .nil, .cons item rest, hlength, _ => by simp [Items.toList] at hlength
  | .cons item rest, .nil, hlength, _ => by simp [Items.toList] at hlength
  | .cons item rest, .cons item' rest', hlength, h => by
      have hhead := redact_ext key item item' h.head
      have htail := redactItems_ext key rest rest' (Nat.succ.inj hlength) h.tail
      show Items.cons _ _ = Items.cons _ _
      rw [hhead, htail]

theorem redactMembers_ext : ∀ members members' : Members, members.keys = members'.keys →
    SameChildren hidden members.toList members'.toList →
    redactMembers hidden mark members = redactMembers hidden mark members'
  | .nil, .nil, _, _ => rfl
  | .nil, .cons key value rest, hkeys, _ => by simp at hkeys
  | .cons key value rest, .nil, hkeys, _ => by simp at hkeys
  | .cons key value rest, .cons key' value' rest', hkeys, h => by
      obtain ⟨hkey, hrest⟩ := List.cons.inj hkeys
      subst hkey
      have hhead := redact_ext key value value' h.head
      have htail := redactMembers_ext rest rest' hrest h.tail
      show Members.cons _ _ _ = Members.cons _ _ _
      rw [hhead, htail]

end

/-- Two values are redacted to the same exactly when the same is visible in them. -/
theorem redact_eq_iff (hidden : String → Bool) (mark : Json) (key : String) (v w : Json) :
    redact hidden mark key v = redact hidden mark key w ↔
      ∀ position, visible hidden key v position = visible hidden key w position := by
  constructor
  · intro h position
    rw [← visible_redact mark, h, visible_redact mark]
  · exact redact_ext key v w

end NeuralHub.Lib
