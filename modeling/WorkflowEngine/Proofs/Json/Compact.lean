import WorkflowEngine.Proofs.Decoding.Presentation
import WorkflowEngine.Proofs.Json.Words

/-!
# Reading compact texts

The compact text of a value without fractions is read as the value, if lists and objects do not nest
deeper than a text may. If they nest deeper, the text is no value.
-/

namespace WorkflowEngine.Json

open Text

/-- Values whose numbers are integers in range. -/
inductive Whole : Json → Prop where
  /-- Nothing. -/
  | null : Whole .null
  /-- A truth value. -/
  | boolean (b : Bool) : Whole (.boolean b)
  /-- An integer. -/
  | integer {n : Int} (h : InRange n) : Whole (.number (.integer n))
  /-- A text. -/
  | string (s : String) : Whole (.string s)
  /-- A list of such values. -/
  | array {items : List Json} (h : ∀ v ∈ items, Whole v) : Whole (.array items)
  /-- Members with such values. -/
  | object {members : List (String × Json)} (h : ∀ m ∈ members, Whole m.2) :
    Whole (.object members)

namespace Syntax

/-! ## Between words -/

theorem isBlank_eq_false_of_isDigit {c : Char} (h : c.isDigit = true) : isBlank c = false := by
  have hne (b : Char) (hb : b.isDigit = false) : (c == b) = false := by
    refine beq_false_of_ne ?_
    rintro rfl
    exact absurd h (Bool.eq_false_iff.1 hb)
  simp only [isBlank, hne ' ' (by decide), hne '\n' (by decide), hne '\t' (by decide),
    hne '\r' (by decide), Bool.or_self]

/-- Before a character that is no blank there are no blanks to skip. -/
theorem skipBlanks_cons {c : Char} (h : isBlank c = false) (rest : List Char) :
    skipBlanks (c :: rest) = c :: rest :=
  List.dropWhile_cons_of_neg (Bool.eq_false_iff.1 h)

/-- What stands in front of a compact text is no blank, and closes no list. -/
theorem render_eq_cons {v : Json} (h : v.Whole) :
    ∃ c rest, v.render = c :: rest ∧ isBlank c = false ∧ c ≠ ']' := by
  cases h with
  | null => exact ⟨_, _, rfl, by decide, by decide⟩
  | boolean b => cases b <;> exact ⟨_, _, rfl, by decide, by decide⟩
  | @integer n h =>
    rcases Int.lt_or_le n 0 with hn | hn
    · exact ⟨_, _, ofInt_of_neg hn, by decide, by decide⟩
    · obtain ⟨c, rest, hdigits, hc⟩ := exists_toDigits_eq_cons n.natAbs
      refine ⟨c, rest, (ofInt_of_nonneg hn).trans hdigits, isBlank_eq_false_of_isDigit hc, ?_⟩
      rintro rfl
      exact absurd hc (by decide)
  | string s => exact ⟨_, _, rfl, by decide, by decide⟩
  | @array items h => cases items <;> exact ⟨_, _, rfl, by decide, by decide⟩
  | @object members h => cases members <;> exact ⟨_, _, rfl, by decide, by decide⟩

theorem endsNumber_renderItems (items : List Json) (rest : List Char) :
    EndsNumber (renderItems items ++ rest) := by
  cases items <;> exact ⟨by decide, by decide, by decide, by decide⟩

/-- A number may end before the rest of an object. -/
theorem endsNumber_renderMembers (members : List (String × Json)) (rest : List Char) :
    EndsNumber (renderMembers members ++ rest) := by
  cases members <;> exact ⟨by decide, by decide, by decide, by decide⟩

/-! ## Values -/

/-- Whether a value is read from its compact text, whatever follows. -/
def Reads (v : Json) : Prop :=
  ∀ (fuel : Nat) (rest : List Char), 2 * v.render.length ≤ fuel → EndsNumber rest →
    readValue fuel (v.render ++ rest) = some (.ofJson v, rest)

/-- Items are read one after the other up to the bracket that closes their list. -/
theorem readItems_of_reads {v : Json} {items : List Json} (h : ∀ w ∈ v :: items, Reads w)
    (fuel : Nat) (rest : List Char)
    (hfuel : 2 * (v.render.length + (renderItems items).length) < fuel) :
    readItems fuel (v.render ++ renderItems items ++ rest) =
      some (ofJsonItems (v :: items), rest) := by
  induction items generalizing v fuel with
  | nil =>
    obtain ⟨fuel, rfl⟩ := Nat.exists_eq_add_one_of_ne_zero (Nat.ne_zero_of_lt hfuel)
    have hv := h v List.mem_cons_self fuel (renderItems [] ++ rest) (by omega)
      (endsNumber_renderItems [] rest)
    rw [List.append_assoc, readItems, hv]
    rfl
  | cons w items ih =>
    obtain ⟨fuel, rfl⟩ := Nat.exists_eq_add_one_of_ne_zero (Nat.ne_zero_of_lt hfuel)
    have hv := h v List.mem_cons_self fuel (renderItems (w :: items) ++ rest) (by omega)
      (endsNumber_renderItems (w :: items) rest)
    simp only [renderItems, List.length_append, List.length_cons] at hfuel
    have hrest := ih (fun u hu => h u (List.mem_cons_of_mem v hu)) fuel (by omega)
    rw [List.append_assoc, readItems, hv]
    simp (disch := decide) only [renderItems, List.cons_append, skipBlanks_cons, hrest]
    rfl

/-- Members are read one after the other up to the brace that closes their object. -/
theorem readMembers_of_reads {m : String × Json} {members : List (String × Json)}
    (h : ∀ n ∈ m :: members, Reads n.2) (fuel : Nat) (rest : List Char)
    (hfuel : 2 * (m.2.render.length + (renderMembers members).length) < fuel) :
    readMembers fuel (quote m.1 ++ ':' :: m.2.render ++ renderMembers members ++ rest) =
      some (ofJsonMembers (m :: members), rest) := by
  induction members generalizing m fuel with
  | nil =>
    obtain ⟨fuel, rfl⟩ := Nat.exists_eq_add_one_of_ne_zero (Nat.ne_zero_of_lt hfuel)
    have hv := h m List.mem_cons_self fuel (renderMembers [] ++ rest) (by omega)
      (endsNumber_renderMembers [] rest)
    simp (disch := decide) only [List.append_assoc, List.cons_append, List.nil_append, quote,
      readMembers, skipBlanks_cons, readQuoted_quoted, hv]
    rfl
  | cons n members ih =>
    obtain ⟨fuel, rfl⟩ := Nat.exists_eq_add_one_of_ne_zero (Nat.ne_zero_of_lt hfuel)
    have hv := h m List.mem_cons_self fuel (renderMembers (n :: members) ++ rest) (by omega)
      (endsNumber_renderMembers (n :: members) rest)
    simp only [renderMembers, List.length_append, List.length_cons] at hfuel
    have hrest := ih (fun u hu => h u (List.mem_cons_of_mem m hu)) fuel (by omega)
    simp only [renderMembers, List.append_assoc, List.cons_append, List.nil_append, quote]
      at hv hrest
    simp (disch := decide) only [renderMembers, List.append_assoc, List.cons_append,
      List.nil_append, quote, readMembers, skipBlanks_cons, readQuoted_quoted, hv, hrest]
    rfl

/-- What starts with a minus or a digit is read as a number. -/
theorem readValue_of_number {c : Char} (hc : c = '-' ∨ c.isDigit = true) (fuel : Nat)
    (rest : List Char) :
    readValue (fuel + 1) (c :: rest) =
      (readNumber (c :: rest)).map fun (lexeme, r) => (.number (Number.ofLexeme lexeme), r) := by
  have hblank : isBlank c = false := by
    rcases hc with rfl | hc
    · rfl
    · exact isBlank_eq_false_of_isDigit hc
  have hne (b : Char) (hb : b ≠ '-' ∧ b.isDigit = false) : c ≠ b := by
    rintro rfl
    rcases hc with rfl | hc
    · exact hb.1 rfl
    · exact absurd hc (Bool.eq_false_iff.1 hb.2)
  rw [readValue, skipBlanks_cons hblank]
  split
  case h_7 => rfl
  all_goals
    next hfront =>
    exact absurd (List.cons.inj hfront).1 (hne _ (by decide))

/-- An integer in range is read from its decimal text. -/
theorem readValue_ofInt {n : Int} (h : InRange n) (fuel : Nat) {rest : List Char}
    (hrest : EndsNumber rest) :
    readValue (fuel + 1) (Text.ofInt n ++ rest) = some (.number (some (.integer n)), rest) := by
  obtain ⟨c, digits, hc⟩ := List.exists_cons_of_ne_nil (ofInt_ne_nil n)
  have hfront := eq_or_isDigit_of_mem_ofInt (hc ▸ List.mem_cons_self)
  have hread := readNumber_ofInt n hrest
  rw [hc, List.cons_append, readValue_of_number hfront, ← List.cons_append, ← hc, hread]
  exact congrArg (fun m => some (number m, rest)) (Number.ofLexeme_ofInt h)

/-- What starts with a bracket that is not closed at once is read as a list of items. -/
theorem readValue_array {c : Char} (hblank : isBlank c = false) (hc : c ≠ ']') (fuel : Nat)
    (rest : List Char) :
    readValue (fuel + 1) ('[' :: c :: rest) =
      (readItems fuel (c :: rest)).map fun (items, r) => (.array items, r) := by
  simp only [readValue, skipBlanks_cons (show isBlank '[' = false from rfl),
    skipBlanks_cons hblank]
  split
  next hclose => exact absurd (List.cons.inj hclose).1 hc
  next => rfl

/-- To read a value takes some fuel, for no compact text is empty. -/
theorem reads_of_succ {v : Json} (h : v.Whole)
    (hread : ∀ (fuel : Nat) (rest : List Char), 2 * v.render.length ≤ fuel + 1 → EndsNumber rest →
      readValue (fuel + 1) (v.render ++ rest) = some (.ofJson v, rest)) : Reads v := by
  intro fuel rest hfuel hrest
  obtain ⟨c, front, hfront, -, -⟩ := render_eq_cons h
  have hlength : v.render.length = front.length + 1 := by rw [hfront, List.length_cons]
  obtain ⟨fuel, rfl⟩ := Nat.exists_eq_add_one_of_ne_zero (show fuel ≠ 0 by omega)
  exact hread fuel rest hfuel hrest

/-- A value is read from its compact text, whatever follows. -/
theorem reads_of_whole {v : Json} (h : v.Whole) : Reads v := by
  induction h with
  | null => exact reads_of_succ .null fun _ _ _ _ => rfl
  | boolean b => cases b <;> exact reads_of_succ (.boolean _) fun _ _ _ _ => rfl
  | integer h =>
    exact reads_of_succ (.integer h) fun fuel rest _ hrest => readValue_ofInt h fuel hrest
  | string s =>
    refine reads_of_succ (.string s) fun fuel rest _ _ => ?_
    simp (disch := decide) only [render, quote, List.cons_append, List.append_assoc,
      List.nil_append, readValue, skipBlanks_cons, readQuoted_quoted]
    rfl
  | @array items h ih =>
    refine reads_of_succ (.array h) fun fuel rest hfuel _ => ?_
    cases items with
    | nil => rfl
    | cons v items =>
      simp only [render, List.length_append, List.length_cons] at hfuel
      have hitems := readItems_of_reads ih fuel rest (by omega)
      -- The first item does not begin like the end of the list.
      obtain ⟨c, front, hv, hblank, hc⟩ := render_eq_cons (h v List.mem_cons_self)
      rw [hv, List.cons_append, List.cons_append] at hitems
      simp only [render, hv, List.cons_append]
      rw [readValue_array hblank hc, hitems]
      rfl
  | @object members h ih =>
    refine reads_of_succ (.object h) fun fuel rest hfuel _ => ?_
    cases members with
    | nil => rfl
    | cons m members =>
      simp only [render, List.length_append, List.length_cons] at hfuel
      have hmembers := readMembers_of_reads ih fuel rest (by omega)
      exact congrArg (Option.map fun r => (object r.1, r.2)) hmembers

/-- The compact text is read as the syntax tree of the value. -/
theorem ofText?_compact {v : Json} (h : v.Whole) : ofText? v.compact = some (.ofJson v) := by
  have hread := reads_of_whole h (2 * v.render.length + 2) [] (Nat.le_add_right _ _) trivial
  rw [List.append_nil] at hread
  rw [ofText?, Json.compact, String.toList_ofList, hread]
  rfl

/-! ## Depth -/

mutual

/-- The syntax tree of a value that nests too deep is none of a value. -/
theorem toJson?_ofJson_eq_none : (v : Json) → {depth : Nat} → depth < v.depth →
    (ofJson v).toJson? depth = none
  | .array items, 0, _ => rfl
  | .array items, depth + 1, h => by
    have hitems := toItems?_ofJsonItems_eq_none items (Nat.lt_of_succ_lt_succ h)
    rw [ofJson, toJson?, hitems, Option.map_none]
  | .object members, 0, _ => rfl
  | .object members, depth + 1, h => by
    have hmembers := toMembers?_ofJsonMembers_eq_none members (Nat.lt_of_succ_lt_succ h)
    rw [ofJson, toJson?, hmembers, Option.map_none]
  | .number n, _, h => by cases n <;> exact absurd h (Nat.not_lt_zero _)
  | .null, _, h | .boolean _, _, h | .string _, _, h => absurd h (Nat.not_lt_zero _)

theorem toItems?_ofJsonItems_eq_none : (items : List Json) → {depth : Nat} →
    depth < Content.depthItems (Content.ofJsonItems items) →
    toItems? depth (ofJsonItems items) = none
  | [], _, h => absurd h (Nat.not_lt_zero _)
  | v :: rest, depth, h => by
    rcases lt_max_iff.1 h with hv | hrest
    · simp only [ofJsonItems, toItems?, toJson?_ofJson_eq_none v hv]
    · simp only [ofJsonItems, toItems?, toItems?_ofJsonItems_eq_none rest hrest]
      cases toJson? depth (ofJson v) <;> rfl

/-- Members of which one nests too deep are not all read. -/
theorem toMembers?_ofJsonMembers_eq_none : (members : List (String × Json)) → {depth : Nat} →
    depth < Content.depthEntries (Content.ofJsonMembers members) →
    toMembers? depth (ofJsonMembers members) = none
  | [], _, h => absurd h (Nat.not_lt_zero _)
  | (name, v) :: rest, depth, h => by
    rcases lt_max_iff.1 h with hv | hrest
    · have hv : depth < v.depth := (lt_max_iff.1 hv).resolve_left (Nat.not_lt_zero _)
      simp only [ofJsonMembers, toMembers?, toJson?_ofJson_eq_none v hv]
    · simp only [ofJsonMembers, toMembers?, toMembers?_ofJsonMembers_eq_none rest hrest]
      cases toJson? depth (ofJson v) <;> rfl

end

end Syntax

/-- The compact text of a value in order is read as the value, if it nests within the limit. -/
theorem ofText?_compact {v : Json} (h : v.Whole) (hv : v.Ordered) (hd : v.depth ≤ depthLimit) :
    ofText? v.compact = some v := by
  rw [ofText?, Syntax.ofText?_compact h, Option.bind_some, Syntax.toJson?_ofJson hv hd]

/-- The compact text of a value that nests deeper is none of a value. -/
theorem ofText?_compact_eq_none {v : Json} (h : v.Whole) (hd : depthLimit < v.depth) :
    ofText? v.compact = none := by
  rw [ofText?, Syntax.ofText?_compact h, Option.bind_some, Syntax.toJson?_ofJson_eq_none v hd]

end WorkflowEngine.Json
