/-
NeuralHub.Lib.JsonLayout — `json.dumps` with and without `indent`, and that
`json.loads` reads back what it prints.

A `Layout` says which white space stands behind an opening bracket, behind
a comma and in front of a closing bracket, each at its depth. Nothing else
in a printed text depends on it, and the reader skips it, so the round trip
is one proof for all layouts (`loads_laid`): `compact` is what `Json.text`
prints, and `indented` is `indent=2`. Nor does a control character stand in
it that the layout does not have (`control_not_mem_laid`).
-/
import NeuralHub.Lib.JsonReader

namespace NeuralHub.Lib

/-! ## Layouts -/

/-- White space around the items of an array or the members of an object. -/
structure Layout where
  first : Nat → List Char
  next : Nat → List Char
  last : Nat → List Char
  first_space : ∀ depth, ∀ c ∈ first depth, spaceChar c = true
  next_space : ∀ depth, ∀ c ∈ next depth, spaceChar c = true
  last_space : ∀ depth, ∀ c ∈ last depth, spaceChar c = true

/-- Everything on one line. -/
def compact : Layout where
  first _ := []
  next _ := [' ']
  last _ := []
  first_space _ _ h := absurd h List.not_mem_nil
  next_space _ _ h := List.mem_singleton.mp h ▸ rfl
  last_space _ _ h := absurd h List.not_mem_nil

/-- The start of a line. -/
def newLine (depth : Nat) : List Char := '\n' :: List.replicate (2 * depth) ' '

theorem newLine_space (depth : Nat) : ∀ c ∈ newLine depth, spaceChar c = true := by
  intro c hc
  rcases List.mem_cons.mp hc with rfl | hc
  · rfl
  · rw [List.eq_of_mem_replicate hc]
    rfl

/-- `indent=2`. -/
def indented : Layout where
  first depth := newLine (depth + 1)
  next depth := newLine (depth + 1)
  last depth := newLine depth
  first_space depth := newLine_space (depth + 1)
  next_space depth := newLine_space (depth + 1)
  last_space depth := newLine_space depth

mutual

def Json.laid (lay : Layout) (depth : Nat) : Json → List Char
  | .null => Json.null.text
  | .bool b => (Json.bool b).text
  | .int n => (Json.int n).text
  | .float x => (Json.float x).text
  | .str s => (Json.str s).text
  | .arr items => '[' :: items.laid lay depth
  | .obj members => '\x7b' :: members.laid lay depth

/-- The items of an array with the bracket that ends it. -/
def Items.laid (lay : Layout) (depth : Nat) : Items → List Char
  | .nil => [']']
  | .cons item rest => lay.first depth ++ (item.laid lay (depth + 1) ++ rest.laidRest lay depth)

def Items.laidRest (lay : Layout) (depth : Nat) : Items → List Char
  | .nil => lay.last depth ++ [']']
  | .cons item rest =>
      ',' :: (lay.next depth ++ (item.laid lay (depth + 1) ++ rest.laidRest lay depth))

/-- The members of an object with the brace that ends it. -/
def Members.laid (lay : Layout) (depth : Nat) : Members → List Char
  | .nil => ['\x7d']
  | .cons key value rest =>
      lay.first depth ++ (quoted key ++
        ':' :: ' ' :: (value.laid lay (depth + 1) ++ rest.laidRest lay depth))

def Members.laidRest (lay : Layout) (depth : Nat) : Members → List Char
  | .nil => lay.last depth ++ ['\x7d']
  | .cons key value rest =>
      ',' :: (lay.next depth ++ (quoted key ++
        ':' :: ' ' :: (value.laid lay (depth + 1) ++ rest.laidRest lay depth)))

end

mutual

theorem Json.laid_compact : ∀ (depth : Nat) (v : Json), v.laid compact depth = v.text
  | _, .null => rfl
  | _, .bool _ => rfl
  | _, .int _ => rfl
  | _, .float _ => rfl
  | _, .str _ => rfl
  | depth, .arr items => congrArg _ (items.laid_compact depth)
  | depth, .obj members => congrArg _ (members.laid_compact depth)

theorem Items.laid_compact : ∀ (depth : Nat) (items : Items),
    items.laid compact depth = items.text
  | _, .nil => rfl
  | depth, .cons item rest => by
      rw [Items.laid, Items.text, item.laid_compact, rest.laidRest_compact]
      rfl

theorem Items.laidRest_compact : ∀ (depth : Nat) (items : Items),
    items.laidRest compact depth = items.restText
  | _, .nil => rfl
  | depth, .cons item rest => by
      rw [Items.laidRest, Items.restText, item.laid_compact, rest.laidRest_compact]
      rfl

theorem Members.laid_compact : ∀ (depth : Nat) (members : Members),
    members.laid compact depth = members.text
  | _, .nil => rfl
  | depth, .cons key value rest => by
      rw [Members.laid, Members.text, value.laid_compact, rest.laidRest_compact]
      rfl

theorem Members.laidRest_compact : ∀ (depth : Nat) (members : Members),
    members.laidRest compact depth = members.restText
  | _, .nil => rfl
  | depth, .cons key value rest => by
      rw [Members.laidRest, Members.restText, value.laid_compact, rest.laidRest_compact]
      rfl

end

/-- `json.dumps(value, ensure_ascii=False, indent=2)`. -/
def Json.dumpsIndented (value : Json) : List Char := value.laid indented 0

/-! ## White space -/

theorem skipSpace_append {ws : List Char} (h : ∀ c ∈ ws, spaceChar c = true) (rest : List Char) :
    skipSpace (ws ++ rest) = skipSpace rest :=
  List.dropWhile_append_of_pos h

theorem skipSpace_cons {c : Char} (h : spaceChar c = false) (rest : List Char) :
    skipSpace (c :: rest) = c :: rest := by
  rw [skipSpace, List.dropWhile_cons, h]
  rfl

theorem skipSpace_space (rest : List Char) : skipSpace (' ' :: rest) = skipSpace rest := rfl

theorem wordChar_of_spaceChar {c : Char} (h : spaceChar c = true) : wordChar c = false := by
  simp only [spaceChar, Bool.or_eq_true, beq_iff_eq] at h
  rcases h with ((rfl | rfl) | rfl) | rfl <;> decide

theorem stops_append {ws rest : List Char} (h : ∀ c ∈ ws, spaceChar c = true)
    (hrest : Stops rest) : Stops (ws ++ rest) := by
  cases ws with
  | nil => exact hrest
  | cons c ws => exact stops_cons (wordChar_of_spaceChar (h c List.mem_cons_self)) _

theorem spaceChar_of_charKind {c : Char} {k : Kind} (h : charKind c = some k) :
    spaceChar c = false := by
  by_contra hspace
  rw [Bool.not_eq_false] at hspace
  have hnone : ∀ d, spaceChar d = true → charKind d = none := by
    intro d hd
    simp only [spaceChar, Bool.or_eq_true, beq_iff_eq] at hd
    rcases hd with ((rfl | rfl) | rfl) | rfl <;> decide
  rw [hnone c hspace] at h
  cases h

variable {lay : Layout} {depth : Nat}

/-- A layout does not change how a text begins. -/
theorem head_laid (lay : Layout) (depth : Nat) (v : Json) :
    ∃ c rest, v.laid lay depth = c :: rest ∧ charKind c = some v.kind := by
  cases v with
  | null => exact head_text .null
  | bool b => exact head_text (.bool b)
  | int n => exact head_text (.int n)
  | float x => exact head_text (.float x)
  | str s => exact head_text (.str s)
  | arr items => exact ⟨_, _, rfl, rfl⟩
  | obj members => exact ⟨_, _, rfl, rfl⟩

theorem laid_ne_nil (v : Json) : v.laid lay depth ≠ [] := by
  obtain ⟨c, s, hc, -⟩ := head_laid lay depth v
  rw [hc]
  exact List.cons_ne_nil c s

theorem laid_ne_bracket (v : Json) (s t : List Char) : v.laid lay depth ++ s ≠ ']' :: t := by
  obtain ⟨c, rest, hc, hkind⟩ := head_laid lay depth v
  rw [hc]
  intro h
  rw [(List.cons.inj h).1] at hkind
  exact absurd hkind (by rw [show charKind ']' = none from by decide]; simp)

@[simp] theorem skipSpace_laid (v : Json) (rest : List Char) :
    skipSpace (v.laid lay depth ++ rest) = v.laid lay depth ++ rest := by
  obtain ⟨c, s, hc, hkind⟩ := head_laid lay depth v
  rw [hc, List.cons_append, skipSpace_cons (spaceChar_of_charKind hkind)]

theorem stops_items (items : Items) (s : List Char) : Stops (items.laidRest lay depth ++ s) := by
  cases items with
  | nil =>
    rw [Items.laidRest, List.append_assoc]
    exact stops_append (lay.last_space depth) (stops_cons (by decide) _)
  | cons item rest => exact stops_cons (by decide) _

theorem stops_members (members : Members) (s : List Char) :
    Stops (members.laidRest lay depth ++ s) := by
  cases members with
  | nil =>
    rw [Members.laidRest, List.append_assoc]
    exact stops_append (lay.last_space depth) (stops_cons (by decide) _)
  | cons key value rest => exact stops_cons (by decide) _

/-! ## The round trip -/

theorem readString_text (s : String) (rest : List Char) :
    (fun t => readString t.length t) (s.toList.flatMap escapeChar ++ '"' :: rest) =
      some (s.toList, rest) :=
  readString_quoted s.toList (length_le_escaped s.toList _) rest

/-- The last member of an object, up to the brace. -/
theorem readMember_last {key : String} {value : Json} {s rest : List Char} {fuel : Nat}
    (hread : readValue fuel (value.laid lay depth ++ s) = some (value, s))
    (hskip : skipSpace s = '\x7d' :: rest) :
    readMembers (fuel + 1) (quoted key ++ ':' :: ' ' :: (value.laid lay depth ++ s)) =
      some (.cons key value .nil, rest) := by
  have hkey := readString_text key (':' :: ' ' :: (value.laid lay depth ++ s))
  dsimp only at hkey
  rw [quoted, List.cons_append, List.append_assoc, List.singleton_append, readMembers, hkey]
  simp only [skipSpace_cons (show spaceChar ':' = false by decide), skipSpace_space,
    skipSpace_laid, hread, hskip, String.ofList_toList]

/-- A member that another one follows. -/
theorem readMember_next {key : String} {value : Json} {s rest : List Char} {fuel : Nat}
    (hread : readValue fuel (value.laid lay depth ++ s) = some (value, s))
    (hskip : skipSpace s = ',' :: rest) :
    readMembers (fuel + 1) (quoted key ++ ':' :: ' ' :: (value.laid lay depth ++ s)) =
      (readMembers fuel (skipSpace rest)).map fun x => (.cons key value x.1, x.2) := by
  have hkey := readString_text key (':' :: ' ' :: (value.laid lay depth ++ s))
  dsimp only at hkey
  rw [quoted, List.cons_append, List.append_assoc, List.singleton_append, readMembers, hkey]
  simp only [skipSpace_cons (show spaceChar ':' = false by decide), skipSpace_space,
    skipSpace_laid, hread, hskip, String.ofList_toList]

/-- A value that is printed as a word. -/
theorem readClosed (v : Json) (hword : v.text.all wordChar = true) {rest : List Char}
    (hrest : Stops rest) (h : readWord v.text = some v) (fuel : Nat) :
    readValue (fuel + 1) (v.text ++ rest) = some (v, rest) := by
  obtain ⟨c, s, hc, -⟩ := head_text v
  refine readValue_word ?_ (wordChar_word hword) hrest h fuel
  rw [hc]
  exact List.cons_ne_nil c s

theorem skipSpace_quoted (key : String) (rest : List Char) :
    skipSpace (quoted key ++ rest) = quoted key ++ rest := by
  rw [quoted, List.cons_append]
  exact skipSpace_cons (by decide) _

mutual

theorem readValue_laid : ∀ (depth : Nat) (v : Json) (fuel : Nat) (rest : List Char),
    v.valid = true → Stops rest → (v.laid lay depth).length ≤ fuel →
    readValue fuel (v.laid lay depth ++ rest) = some (v, rest)
  | _, .null, fuel + 1, rest, _, hrest, _ =>
      readClosed Json.null (by decide) hrest (by decide) fuel
  | _, .bool true, fuel + 1, rest, _, hrest, _ =>
      readClosed (Json.bool true) (by decide) hrest (by decide) fuel
  | _, .bool false, fuel + 1, rest, _, hrest, _ =>
      readClosed (Json.bool false) (by decide) hrest (by decide) fuel
  | _, .int n, fuel + 1, rest, _, hrest, _ =>
      readValue_word (decimal_ne_nil n)
        (fun c hc => wordChar_of_numberChar (numberChar_of_floatChar (floatChar_decimal n c hc)))
        hrest (readWord_decimal n) fuel
  | _, .float .nan, fuel + 1, rest, _, hrest, _ =>
      readClosed (Json.float .nan) (by decide) hrest (by decide) fuel
  | _, .float .inf, fuel + 1, rest, _, hrest, _ =>
      readClosed (Json.float .inf) (by decide) hrest (by decide) fuel
  | _, .float .negInf, fuel + 1, rest, _, hrest, _ =>
      readClosed (Json.float .negInf) (by decide) hrest (by decide) fuel
  | _, .float (.finite x), fuel + 1, rest, hvalid, hrest, _ => by
      have hne : x.text ≠ [] := by
        intro hnil
        have hany := x.notInt
        rw [hnil] at hany
        cases hany
      have hword : ∀ c ∈ x.text, wordChar c = true := fun c hc =>
        wordChar_of_numberChar (numberChar_json (.finite x) c hc)
      exact readValue_word hne hword hrest (readWord_float x hvalid) fuel
  | _, .str s, fuel + 1, rest, _, _, _ => by
      have hread := readString_text s rest
      dsimp only at hread
      rw [Json.laid, Json.text, quoted, List.cons_append, List.append_assoc, readValue,
        List.singleton_append, hread]
      simp
  | depth, .arr items, fuel + 1, rest, hvalid, _, hfuel => by
      rw [Json.laid, List.length_cons] at hfuel
      rw [Json.laid, List.cons_append, readValue]
      cases items with
      | nil => rfl
      | cons item items =>
        have hread := readItems_laid depth item items fuel rest hvalid
          (Nat.le_trans (by simp [Items.laid]) (Nat.le_of_succ_le_succ hfuel))
        have hskip : skipSpace ((Items.cons item items).laid lay depth ++ rest) =
            item.laid lay (depth + 1) ++ (items.laidRest lay depth ++ rest) := by
          rw [Items.laid, List.append_assoc, skipSpace_append (lay.first_space depth),
            List.append_assoc, skipSpace_laid]
        rw [hskip]
        split
        · rename_i heq
          exact absurd heq (laid_ne_bracket item _ _)
        · rw [hread]
          rfl
  | depth, .obj members, fuel + 1, rest, hvalid, _, hfuel => by
      rw [Json.laid, List.length_cons] at hfuel
      rw [Json.laid, List.cons_append, readValue]
      cases members with
      | nil => rfl
      | cons key value members =>
        have hread := readMembers_laid depth key value members fuel rest hvalid
          (Nat.le_trans (by simp [Members.laid]) (Nat.le_of_succ_le_succ hfuel))
        have hskip : skipSpace ((Members.cons key value members).laid lay depth ++ rest) =
            quoted key ++ ':' :: ' ' ::
              (value.laid lay (depth + 1) ++ (members.laidRest lay depth ++ rest)) := by
          rw [Members.laid, List.append_assoc, skipSpace_append (lay.first_space depth),
            List.append_assoc, skipSpace_quoted]
          simp
        rw [hskip]
        split
        · rename_i heq
          exact absurd (List.cons.inj heq).1 (by decide)
        · rw [hread, Option.map_some, Members.dict_eq _ hvalid]
  | depth, v, 0, rest, _, _, hfuel =>
      absurd (List.eq_nil_of_length_eq_zero (Nat.le_zero.mp hfuel)) (laid_ne_nil v)

theorem readItems_laid : ∀ (depth : Nat) (item : Json) (items : Items) (fuel : Nat)
    (rest : List Char), (Items.cons item items).valid = true →
    (item.laid lay (depth + 1) ++ items.laidRest lay depth).length ≤ fuel →
    readItems fuel (item.laid lay (depth + 1) ++ (items.laidRest lay depth ++ rest)) =
      some (.cons item items, rest)
  | depth, item, items, 0, rest, _, hfuel =>
      absurd (List.append_eq_nil_iff.mp (List.eq_nil_of_length_eq_zero (Nat.le_zero.mp hfuel))).1
        (laid_ne_nil item)
  | depth, item, .nil, fuel + 1, rest, hvalid, hfuel => by
      simp only [Items.valid, Bool.and_eq_true] at hvalid
      simp only [Items.laidRest, List.length_append, List.length_cons] at hfuel
      have hread := readValue_laid (depth + 1) item fuel (Items.nil.laidRest lay depth ++ rest)
        hvalid.1 (stops_items .nil rest) (by omega)
      have hskip : skipSpace (Items.nil.laidRest lay depth ++ rest) = ']' :: rest := by
        rw [Items.laidRest, List.append_assoc, skipSpace_append (lay.last_space depth)]
        exact skipSpace_cons (by decide) _
      rw [readItems, hread]
      simp only [hskip]
  | depth, item, .cons next items, fuel + 1, rest, hvalid, hfuel => by
      simp only [Items.valid, Bool.and_eq_true] at hvalid
      simp only [Items.laidRest, List.length_append, List.length_cons] at hfuel
      have hread := readValue_laid (depth + 1) item fuel
        ((Items.cons next items).laidRest lay depth ++ rest) hvalid.1
        (stops_items (.cons next items) rest) (by omega)
      have hnext := readItems_laid depth next items fuel rest (by simp [Items.valid, hvalid.2])
        (by simp only [List.length_append]; omega)
      have htext : (Items.cons next items).laidRest lay depth ++ rest =
          ',' :: (lay.next depth ++
            (next.laid lay (depth + 1) ++ (items.laidRest lay depth ++ rest))) := by
        simp [Items.laidRest]
      rw [readItems, hread]
      simp only [htext, skipSpace_cons (show spaceChar ',' = false by decide),
        skipSpace_append (lay.next_space depth), skipSpace_laid, hnext]
      rfl

theorem readMembers_laid : ∀ (depth : Nat) (key : String) (value : Json) (members : Members)
    (fuel : Nat) (rest : List Char), (Members.cons key value members).valid = true →
    (quoted key ++ ':' :: ' ' ::
      (value.laid lay (depth + 1) ++ members.laidRest lay depth)).length ≤ fuel →
    readMembers fuel (quoted key ++ ':' :: ' ' ::
        (value.laid lay (depth + 1) ++ (members.laidRest lay depth ++ rest))) =
      some (.cons key value members, rest)
  | depth, key, value, members, 0, rest, _, hfuel => by
      rw [quoted] at hfuel
      cases hfuel
  | depth, key, value, .nil, fuel + 1, rest, hvalid, hfuel => by
      simp only [Members.valid, Bool.and_eq_true] at hvalid
      simp only [quoted, Members.laidRest, List.length_append, List.length_cons] at hfuel
      have hread := readValue_laid (depth + 1) value fuel (Members.nil.laidRest lay depth ++ rest)
        hvalid.1.2 (stops_members .nil rest) (by omega)
      have hskip : skipSpace (Members.nil.laidRest lay depth ++ rest) = '\x7d' :: rest := by
        rw [Members.laidRest, List.append_assoc, skipSpace_append (lay.last_space depth)]
        exact skipSpace_cons (by decide) _
      exact readMember_last hread hskip
  | depth, key, value, .cons next item members, fuel + 1, rest, hvalid, hfuel => by
      simp only [Members.valid, Bool.and_eq_true] at hvalid
      simp only [quoted, Members.laidRest, List.length_append, List.length_cons] at hfuel
      have hread := readValue_laid (depth + 1) value fuel
        ((Members.cons next item members).laidRest lay depth ++ rest) hvalid.1.2
        (stops_members (.cons next item members) rest) (by omega)
      have hnext := readMembers_laid depth next item members fuel rest
        (by simpa [Members.valid] using hvalid.2) (by
          simp only [quoted, List.length_append, List.length_cons]
          omega)
      have hskip : skipSpace ((Members.cons next item members).laidRest lay depth ++ rest) =
          ',' :: (lay.next depth ++ (quoted next ++ ':' :: ' ' ::
            (item.laid lay (depth + 1) ++ (members.laidRest lay depth ++ rest)))) := by
        rw [Members.laidRest, List.cons_append, skipSpace_cons (by decide)]
        simp
      rw [readMember_next hread hskip, skipSpace_append (lay.next_space depth), skipSpace_quoted, hnext]
      rfl

end

/-- **What `json.dumps` prints, `json.loads` reads back.** -/
theorem loads_laid {v : Json} (h : v.valid = true) : loads (v.laid lay depth) = some v := by
  have hskip : skipSpace (v.laid lay depth) = v.laid lay depth := by
    have happend : skipSpace (v.laid lay depth ++ []) = v.laid lay depth ++ [] :=
      skipSpace_laid v []
    rwa [List.append_nil] at happend
  have hread : readValue ((v.laid lay depth).length + 1) (v.laid lay depth ++ []) = some (v, []) :=
    readValue_laid depth v _ [] h stops_nil (Nat.le_succ _)
  rw [List.append_nil] at hread
  rw [loads, hskip, hread]
  rfl

theorem loads_text {v : Json} (h : v.valid = true) : loads v.text = some v := by
  rw [← v.laid_compact 0]
  exact loads_laid h

/-! ## Control characters -/

/-- What is checked for each control character. -/
theorem of_control {P : Char → Prop} (h : ∀ n, n < 32 → P (Char.ofNat n)) {c : Char}
    (hc : c.toNat < 32) : P c := by
  have hof := h c.toNat hc
  rwa [Char.ofNat_toNat] at hof

theorem ne_of_control {c d : Char} (hc : c.toNat < 32) (hd : 32 ≤ d.toNat) : c ≠ d := by
  rintro rfl
  omega

/-- A layout without this character. -/
structure Layout.Without (lay : Layout) (control : Char) : Prop where
  first : ∀ depth, control ∉ lay.first depth
  next : ∀ depth, control ∉ lay.next depth
  last : ∀ depth, control ∉ lay.last depth

theorem indented_without {control : Char} (hline : control ≠ '\n') (hspace : control ≠ ' ') :
    indented.Without control := by
  have hnew : ∀ depth, control ∉ newLine depth := by
    intro depth hmem
    rcases List.mem_cons.mp hmem with heq | hmem
    · exact hline heq
    · exact hspace (List.eq_of_mem_replicate hmem)
  exact ⟨fun depth => hnew (depth + 1), fun depth => hnew (depth + 1), hnew⟩

theorem compact_without {control : Char} (hspace : control ≠ ' ') : compact.Without control where
  first _ := List.not_mem_nil
  next _ hmem := hspace (List.mem_singleton.mp hmem)
  last _ := List.not_mem_nil

section Controls

variable {control : Char}

theorem control_not_mem (hcontrol : control.toNat < 32) {word : List Char}
    (h : ∀ c ∈ word, 32 ≤ c.toNat) : control ∉ word :=
  fun hmem => absurd (h control hmem) (Nat.not_le.mpr hcontrol)

theorem control_not_mem_literal (hcontrol : control.toNat < 32) {word : List Char}
    (h : (word.all fun c => decide (32 ≤ c.toNat)) = true) : control ∉ word :=
  control_not_mem hcontrol fun c hc => of_decide_eq_true (List.all_eq_true.mp h c hc)

theorem printable_of_numberChar {c : Char} (h : numberChar c = true) : 32 ≤ c.toNat := by
  by_contra hlow
  have hno : numberChar c = false :=
    of_control (P := fun c => numberChar c = false) (by decide) (Nat.not_le.mp hlow)
  rw [h] at hno
  cases hno

/-- A control character is printed as an escape. -/
theorem control_not_mem_escapeChar (hcontrol : control.toNat < 32) (c : Char) :
    control ∉ escapeChar c := by
  intro hmem
  have hslash : control ≠ '\\' := ne_of_control hcontrol (by decide)
  unfold escapeChar at hmem
  split at hmem
  · rename_i letter hletter
    have hread := (unescapes_letter hletter).2
    have hnone : unescapes.lookup control = none :=
      of_control (P := fun c => unescapes.lookup c = none) (by decide) hcontrol
    rcases List.mem_cons.mp hmem with heq | hmem
    · exact hslash heq
    · rw [← List.mem_singleton.mp hmem, hnone] at hread
      cases hread
  · split at hmem
    · have hdigit : ∀ d, d < 16 → control ≠ Nat.digitChar d :=
        of_control (P := fun c => ∀ d, d < 16 → c ≠ Nat.digitChar d) (by decide) hcontrol
      have hhigh := hdigit (c.toNat / 16) (by omega)
      have hlast := hdigit (c.toNat % 16) (by omega)
      have hu : control ≠ 'u' := ne_of_control hcontrol (by decide)
      have hzero : control ≠ '0' := ne_of_control hcontrol (by decide)
      simp [hslash, hu, hzero, hhigh, hlast] at hmem
    · rename_i hlarge
      exact hlarge (List.mem_singleton.mp hmem ▸ hcontrol)

theorem control_not_mem_quoted (hcontrol : control.toNat < 32) (s : String) :
    control ∉ quoted s := by
  have hquote : control ≠ '"' := ne_of_control hcontrol (by decide)
  intro hmem
  rcases List.mem_cons.mp hmem with heq | hmem
  · exact hquote heq
  · rcases List.mem_append.mp hmem with hbody | hend
    · obtain ⟨c, -, hc⟩ := List.mem_flatMap.mp hbody
      exact control_not_mem_escapeChar hcontrol c hc
    · exact hquote (List.mem_singleton.mp hend)

mutual

theorem control_not_mem_laid (hcontrol : control.toNat < 32) (hlay : lay.Without control) :
    ∀ (depth : Nat) (v : Json), control ∉ v.laid lay depth
  | _, .null => show control ∉ Json.null.text from control_not_mem_literal hcontrol (by decide)
  | _, .bool true => show control ∉ (Json.bool true).text from
      control_not_mem_literal hcontrol (by decide)
  | _, .bool false => show control ∉ (Json.bool false).text from
      control_not_mem_literal hcontrol (by decide)
  | _, .int n => control_not_mem hcontrol fun c hc =>
      printable_of_numberChar (numberChar_of_floatChar (floatChar_decimal n c hc))
  | _, .float x => control_not_mem hcontrol fun c hc =>
      printable_of_numberChar (numberChar_json x c hc)
  | _, .str s => control_not_mem_quoted hcontrol s
  | depth, .arr items => by
      have hitems := control_not_mem_items hcontrol hlay depth items
      have hbracket : control ≠ '[' := ne_of_control hcontrol (by decide)
      simp [Json.laid, hbracket, hitems]
  | depth, .obj members => by
      have hmembers := control_not_mem_members hcontrol hlay depth members
      have hbrace : control ≠ '\x7b' := ne_of_control hcontrol (by decide)
      simp [Json.laid, hbrace, hmembers]

theorem control_not_mem_items (hcontrol : control.toNat < 32) (hlay : lay.Without control) :
    ∀ (depth : Nat) (items : Items), control ∉ items.laid lay depth
  | _, .nil => show control ∉ [']'] from control_not_mem_literal hcontrol (by decide)
  | depth, .cons item items => by
      have hitem := control_not_mem_laid hcontrol hlay (depth + 1) item
      have hrest := control_not_mem_itemsRest hcontrol hlay depth items
      simp [Items.laid, hlay.first depth, hitem, hrest]

theorem control_not_mem_itemsRest (hcontrol : control.toNat < 32) (hlay : lay.Without control) :
    ∀ (depth : Nat) (items : Items), control ∉ items.laidRest lay depth
  | depth, .nil => by
      have hbracket : control ≠ ']' := ne_of_control hcontrol (by decide)
      simp [Items.laidRest, hlay.last depth, hbracket]
  | depth, .cons item items => by
      have hitem := control_not_mem_laid hcontrol hlay (depth + 1) item
      have hrest := control_not_mem_itemsRest hcontrol hlay depth items
      have hcomma : control ≠ ',' := ne_of_control hcontrol (by decide)
      simp [Items.laidRest, hcomma, hlay.next depth, hitem, hrest]

theorem control_not_mem_members (hcontrol : control.toNat < 32) (hlay : lay.Without control) :
    ∀ (depth : Nat) (members : Members), control ∉ members.laid lay depth
  | _, .nil => show control ∉ ['\x7d'] from control_not_mem_literal hcontrol (by decide)
  | depth, .cons key value members => by
      have hvalue := control_not_mem_laid hcontrol hlay (depth + 1) value
      have hrest := control_not_mem_membersRest hcontrol hlay depth members
      have hcolon : control ≠ ':' := ne_of_control hcontrol (by decide)
      have hspace : control ≠ ' ' := ne_of_control hcontrol (by decide)
      simp [Members.laid, hlay.first depth, control_not_mem_quoted hcontrol key, hcolon, hspace,
        hvalue, hrest]

theorem control_not_mem_membersRest (hcontrol : control.toNat < 32) (hlay : lay.Without control) :
    ∀ (depth : Nat) (members : Members), control ∉ members.laidRest lay depth
  | depth, .nil => by
      have hbrace : control ≠ '\x7d' := ne_of_control hcontrol (by decide)
      simp [Members.laidRest, hlay.last depth, hbrace]
  | depth, .cons key value members => by
      have hvalue := control_not_mem_laid hcontrol hlay (depth + 1) value
      have hrest := control_not_mem_membersRest hcontrol hlay depth members
      have hcomma : control ≠ ',' := ne_of_control hcontrol (by decide)
      have hcolon : control ≠ ':' := ne_of_control hcontrol (by decide)
      have hspace : control ≠ ' ' := ne_of_control hcontrol (by decide)
      simp [Members.laidRest, hcomma, hlay.next depth, control_not_mem_quoted hcontrol key, hcolon,
        hspace, hvalue, hrest]

end

/-- No control character stands in a text of `json.dumps` as it is. -/
theorem control_not_mem_text (hcontrol : control.toNat < 32) (v : Json) : control ∉ v.text := by
  rw [← v.laid_compact 0]
  have hspace : control ≠ ' ' := ne_of_control hcontrol (by decide)
  exact control_not_mem_laid hcontrol (compact_without hspace) 0 v

end Controls

end NeuralHub.Lib
