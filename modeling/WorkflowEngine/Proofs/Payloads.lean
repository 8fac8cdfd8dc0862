import WorkflowEngine.Proofs.Json.Compact

/-!
# Reading canonical texts

A payload is read from its canonical text as a payload of its own type, unless it nests deeper than
a JSON text may: then its text is rejected as no JSON. Whatever is read as a payload of a type has
the shape of that type.
-/

namespace WorkflowEngine.Payload

open Json

/-! ## Payloads as JSON values -/

mutual

/-- How deep lists and objects nest in a payload. -/
def depth : Payload → Nat
  | .object members => depthMembers members + 1
  | .list items => depthItems items + 1
  | _ => 0

/-- How deep the items of a list nest. -/
def depthItems : List Payload → Nat
  | [] => 0
  | p :: rest => max (depth p) (depthItems rest)

/-- How deep the members of an object nest. -/
def depthMembers : List (String × Payload) → Nat
  | [] => 0
  | (_, p) :: rest => max (depth p) (depthMembers rest)

end

mutual

/-- A payload nests as deep as its JSON value. -/
theorem depth_toJson : (p : Payload) → p.toJson.depth = p.depth
  | .object members => by
    rw [toJson, Json.depth_object, depthEntries_toJsonMembers members, depth]
  | .list items => by
    rw [toJson, Json.depth_array, depthItems_toJsonItems items, depth]
  | .null | .string _ | .integer _ | .boolean _ => rfl

theorem depthItems_toJsonItems : (items : List Payload) →
    Content.depthItems (Content.ofJsonItems (toJsonItems items)) = depthItems items
  | [] => rfl
  | p :: rest => congr (congrArg max (depth_toJson p)) (depthItems_toJsonItems rest)

/-- The members of a payload nest as deep as what is written for them. -/
theorem depthEntries_toJsonMembers : (members : List (String × Payload)) →
    Content.depthEntries (Content.ofJsonMembers (toJsonMembers members)) = depthMembers members
  | [] => rfl
  | (name, p) :: rest => by
    have hp : max 0 p.toJson.depth = p.depth := (Nat.zero_max _).trans (depth_toJson p)
    exact congr (congrArg max hp) (depthEntries_toJsonMembers rest)

end

mutual

/-- The numbers of a payload are integers in range. -/
theorem whole_toJson : (p : Payload) → p.toJson.Whole
  | .null => .null
  | .string s => .string s
  | .integer i => by
    have hmin : Int64.minValue.toInt = -2 ^ 63 := by decide
    have hmax : Int64.maxValue.toInt = 2 ^ 63 - 1 := by decide
    have hlow := i.minValue_le_toInt
    have hhigh := i.toInt_le
    exact .integer ⟨by omega, by omega⟩
  | .boolean b => .boolean b
  | .object members => .object (whole_toJsonMembers members)
  | .list items => .array (whole_toJsonItems items)

theorem whole_toJsonItems : (items : List Payload) → ∀ v ∈ toJsonItems items, v.Whole
  | [], _, h => nomatch h
  | p :: rest, v, h => by
    rcases List.mem_cons.1 h with rfl | h
    · exact whole_toJson p
    · exact whole_toJsonItems rest v h

/-- What is written for members has only integers in range. -/
theorem whole_toJsonMembers : (members : List (String × Payload)) →
    ∀ m ∈ toJsonMembers members, m.2.Whole
  | [], _, h => nomatch h
  | (name, p) :: rest, m, h => by
    rcases List.mem_cons.1 h with rfl | h
    · exact whole_toJson p
    · exact whole_toJsonMembers rest m h

end

/-! ## Texts -/

/-- The compact text of a payload that nests within the limit is read as the JSON value of the
payload. -/
theorem ofText?_compact {p : Payload} (h : p.Ordered) (hd : p.depth ≤ depthLimit) :
    Json.ofText? p.toJson.compact = some p.toJson :=
  Json.ofText?_compact (whole_toJson p) h.toJson ((depth_toJson p).trans_le hd)

theorem ofText?_compact_eq_none {p : Payload} (hd : depthLimit < p.depth) :
    Json.ofText? p.toJson.compact = none :=
  Json.ofText?_compact_eq_none (whole_toJson p) (hd.trans_eq (depth_toJson p).symm)

theorem readJson_eq_ok {text : String} {v : Json} (h : Json.ofText? text = some v) :
    readJson text = .ok v := by
  rw [readJson, h]

/-- Any other text is reported as not well formed. -/
theorem readJson_eq_error {text : String} (h : Json.ofText? text = none) :
    readJson text = .error (.json "the text is not well formed") := by
  rw [readJson, h]

/-- A payload that nests within the limit is read from its canonical text. -/
theorem parseAs_text_of_depth_le {p : Payload} (h : p.Ordered) (hd : p.depth ≤ depthLimit) :
    parseAs p.text p.type = .ok p := by
  have hjson := ofText?_compact h hd
  cases p with
  | null =>
    have hnull : Json.ofText? (text .null) = some .null := hjson
    rw [type, parseAs, hnull]
    rfl
  | string s => rfl
  | integer i =>
    have htext : text (.integer i) = String.ofList (Text.ofInt i.toInt) := rfl
    rw [htext, type, parseAs, Text.trim_ofInt, Text.readInt64_ofInt]
  | boolean b =>
    have hword : Text.toSmall (Text.trim (text (.boolean b))) = if b then "true" else "false" := by
      cases b <;> decide +kernel
    rw [type, parseAs, hword]
    cases b <;> rfl
  | object members =>
    have hread : readJson (text (.object members)) = .ok (.object (toJsonMembers members)) :=
      readJson_eq_ok hjson
    rw [type, parseAs, hread]
    exact congrArg Except.ok (ofJson_toJson (.object members))
  | list items =>
    have hread : readJson (text (.list items)) = .ok (.array (toJsonItems items)) :=
      readJson_eq_ok hjson
    rw [type, parseAs, hread]
    exact congrArg Except.ok (ofJson_toJson (.list items))

/-- The canonical text of a payload that nests deeper is rejected as no JSON. -/
theorem exists_of_parseAs_text {p : Payload} (hd : depthLimit < p.depth) :
    ∃ reason, parseAs p.text p.type = .error (.json reason) := by
  have hread := readJson_eq_error (ofText?_compact_eq_none hd)
  cases p with
  | null | string _ | integer _ | boolean _ => exact absurd hd (Nat.not_lt_zero _)
  | object members =>
    have htext : readJson (text (.object members)) = _ := hread
    rw [type, parseAs, htext]
    exact ⟨_, rfl⟩
  | list items =>
    have htext : readJson (text (.list items)) = _ := hread
    rw [type, parseAs, htext]
    exact ⟨_, rfl⟩

/-- What is read as a payload of a type has the shape of the type. -/
theorem admits_of_parseAs {text : String} {t : ValueType} {p : Payload}
    (h : parseAs text t = .ok p) : t.admits p = true := by
  cases t with
  | any => rfl
  | string =>
    obtain rfl := Except.ok.inj h
    rfl
  | integer =>
    rw [parseAs] at h
    split at h
    next => exact Except.ok.inj h ▸ rfl
    next => exact nomatch h
  | boolean =>
    rw [parseAs] at h
    split at h
    next => exact Except.ok.inj h ▸ rfl
    next => exact Except.ok.inj h ▸ rfl
    next => exact nomatch h
  | object =>
    rw [parseAs] at h
    split at h
    next => exact Except.ok.inj h ▸ rfl
    next => exact nomatch h
    next => exact nomatch h
  | list =>
    rw [parseAs] at h
    split at h
    next => exact Except.ok.inj h ▸ rfl
    next => exact nomatch h
    next => exact nomatch h

/-- A payload is read from its canonical text as a payload of its type if it nests at most 127 deep;
the canonical text of a payload that nests deeper is no JSON. Whatever is read as a payload of a
type has the shape of the type. -/
theorem parseAs_text :
    (∀ p : OrderedPayload, p.tree.depth ≤ 127 →
        parseAs p.tree.text p.tree.type = .ok p.tree) ∧
      (∀ p : Payload, 127 < p.depth → ∃ reason, parseAs p.text p.type = .error (.json reason)) ∧
      ∀ (text : String) (t : ValueType) (p : Payload), parseAs text t = .ok p → t.admits p = true :=
  ⟨fun p hd => parseAs_text_of_depth_le p.ordered hd, fun _ hd => exists_of_parseAs_text hd,
    fun _ _ _ h => admits_of_parseAs h⟩

/-- A list in a list, and so on, as deep as given. -/
def nested : Nat → OrderedPayload
  | 0 => .list []
  | n + 1 => .list [nested n]

/-- Each nesting adds one to the depth. -/
theorem depth_nested (n : Nat) : (nested n).tree.depth = n + 1 := by
  induction n with
  | zero => rfl
  | succ n ih =>
    show max (nested n).tree.depth 0 + 1 = n + 1 + 1
    rw [ih]
    rfl

/-- Text that looks like JSON is kept inside of quotes, and one level more is too much. -/
theorem parseAs_text_nested :
    let p : OrderedPayload := .object (.ofList [("", .list []),
      ("a\"]\x7d", .string "\n\x01,\"\\ü"),
      ("b", .list [.integer Int64.minValue, .null, .boolean false, .object .empty])])
    parseAs p.tree.text .object = .ok p.tree ∧ ValueType.object.admits p.tree = true ∧
      parseAs (nested 126).tree.text .list = .ok (nested 126).tree ∧
      ∃ reason, parseAs (nested 127).tree.text .list = .error (.json reason) := by
  intro p
  obtain ⟨hread, hdeep, hadmits⟩ := parseAs_text
  have hp : parseAs p.tree.text .object = .ok p.tree := hread p (by decide)
  exact ⟨hp, hadmits p.tree.text .object p.tree hp, hread (nested 126) (depth_nested 126).le,
    hdeep (nested 127).tree (Nat.lt_of_lt_of_eq (by decide) (depth_nested 127).symm)⟩

end WorkflowEngine.Payload
