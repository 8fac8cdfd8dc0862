import WorkflowEngine.Payload
import WorkflowEngine.Proofs.Ascending

/-!
# Values in order

The members of an object are listed by ascending name, so that of two lists of the same members only
one is that of an object. A JSON value and a payload are in order if this holds of every object in
them. Both remain in order when one is taken for the other. The type of trees cannot say this by
itself, since a nested inductive type does not see the names of its own members; a payload in order
is therefore a tree together with the proof, and is made of such payloads only.
-/

namespace WorkflowEngine

/-- JSON values in which the members of every object ascend by name. -/
inductive Json.Ordered : Json → Prop where
  /-- Nothing. -/
  | null : Ordered .null
  /-- A truth value. -/
  | boolean (b : Bool) : Ordered (.boolean b)
  /-- A number. -/
  | number (n : Json.Number) : Ordered (.number n)
  /-- A text. -/
  | string (s : String) : Ordered (.string s)
  /-- A list of values in order. -/
  | array {items : List Json} (h : ∀ v ∈ items, Ordered v) : Ordered (.array items)
  /-- Ascending members whose values are in order. -/
  | object {members : List (String × Json)} (names : members.Pairwise fun a b => a.1 < b.1)
    (h : ∀ m ∈ members, Ordered m.2) : Ordered (.object members)

/-- Payloads in which the members of every object ascend by name. -/
inductive Payload.Ordered : Payload → Prop where
  /-- No content. -/
  | null : Ordered .null
  /-- A text. -/
  | string (s : String) : Ordered (.string s)
  /-- An integer. -/
  | integer (i : Int64) : Ordered (.integer i)
  /-- A truth value. -/
  | boolean (b : Bool) : Ordered (.boolean b)
  /-- Ascending members whose payloads are in order. -/
  | object {members : List (String × Payload)} (names : members.Pairwise fun a b => a.1 < b.1)
    (h : ∀ m ∈ members, Ordered m.2) : Ordered (.object members)
  /-- A list of payloads in order. -/
  | list {items : List Payload} (h : ∀ p ∈ items, Ordered p) : Ordered (.list items)

/-- A payload in order, with the proof that it is. -/
structure OrderedPayload where
  /-- The payload. -/
  tree : Payload
  /-- The members of every object in it ascend by name. -/
  ordered : tree.Ordered

namespace OrderedPayload

/-- No content. -/
def null : OrderedPayload := ⟨.null, .null⟩

/-- A text. -/
def string (s : String) : OrderedPayload := ⟨.string s, .string s⟩

/-- An integer. -/
def integer (i : Int64) : OrderedPayload := ⟨.integer i, .integer i⟩

/-- A truth value. -/
def boolean (b : Bool) : OrderedPayload := ⟨.boolean b, .boolean b⟩

/-- A list of payloads in order. -/
def list (items : List OrderedPayload) : OrderedPayload where
  tree := .list (items.map tree)
  ordered := .list (List.forall_mem_map.2 fun p _ => p.ordered)

/-- The object of a dictionary, whose names ascend by themselves. -/
def object (members : Dictionary OrderedPayload) : OrderedPayload where
  tree := .object (members.toList.map fun m => (m.1, m.2.tree))
  ordered := .object (List.pairwise_map.2 members.ascending)
    (List.forall_mem_map.2 fun m _ => m.2.ordered)

end OrderedPayload

namespace Json

/-- Members that ascend already are those of the object that is made of them. -/
theorem ofMembers_of_pairwise {members : List (String × Json)}
    (h : members.Pairwise fun a b => a.1 < b.1) : ofMembers members = .object members :=
  congrArg Json.object (Ascending.toList_ofList h)

/-- Members with values in order, inserted by their names, are an object in order. -/
theorem ordered_ofMembers {members : List (String × Json)} (h : ∀ m ∈ members, m.2.Ordered) :
    (ofMembers members).Ordered := by
  refine .object (Ascending.ofList members : Dictionary Json).ascending ?_
  intro m hm
  exact h m (Ascending.mem_of_mem_ofList hm)

/-- The object of members is what placing them one after the other gives. -/
theorem ofMembers_eq_foldl (members : List (String × Json)) :
    ofMembers members = .object (members.foldl (fun l m => Ascending.place Prod.fst m l) []) := by
  have h : ∀ d : Dictionary Json, (members.foldl Ascending.insert d).toList =
      members.foldl (fun l m => Ascending.place Prod.fst m l) d.toList := by
    induction members with
    | nil => exact fun d => rfl
    | cons m rest ih => exact fun d => ih (d.insert m)
  exact congrArg Json.object (h .empty)

end Json

namespace Payload

theorem ofJsonItems_eq_map (items : List Json) : ofJsonItems items = items.map ofJson := by
  induction items with
  | nil => rfl
  | cons v rest ih => rw [ofJsonItems, ih, List.map_cons]

/-- Members are taken one by one, and keep their names. -/
theorem ofJsonMembers_eq_map (members : List (String × Json)) :
    ofJsonMembers members = members.map fun m => (m.1, ofJson m.2) := by
  induction members with
  | nil => rfl
  | cons m rest ih =>
    obtain ⟨name, v⟩ := m
    rw [ofJsonMembers, ih, List.map_cons]

theorem toJsonItems_eq_map (items : List Payload) : toJsonItems items = items.map toJson := by
  induction items with
  | nil => rfl
  | cons p rest ih => rw [toJsonItems, ih, List.map_cons]

/-- Members are written one by one, and keep their names. -/
theorem toJsonMembers_eq_map (members : List (String × Payload)) :
    toJsonMembers members = members.map fun m => (m.1, toJson m.2) := by
  induction members with
  | nil => rfl
  | cons m rest ih =>
    obtain ⟨name, p⟩ := m
    rw [toJsonMembers, ih, List.map_cons]

/-- The JSON value of a payload in order is in order. -/
theorem Ordered.toJson {p : Payload} (h : p.Ordered) : p.toJson.Ordered := by
  induction h with
  | null => exact .null
  | string s => exact .string s
  | integer i => exact .number _
  | boolean b => exact .boolean b
  | @object members names h ih =>
    rw [Payload.toJson, toJsonMembers_eq_map]
    refine .object (List.pairwise_map.2 names) ?_
    intro m hm
    obtain ⟨m', hm', rfl⟩ := List.mem_map.1 hm
    exact ih m' hm'
  | @list items h ih =>
    rw [Payload.toJson, toJsonItems_eq_map]
    refine .array ?_
    intro v hv
    obtain ⟨p, hp, rfl⟩ := List.mem_map.1 hv
    exact ih p hp

/-- The payload of a JSON value in order is in order. -/
theorem ordered_ofJson {v : Json} (h : v.Ordered) : (ofJson v).Ordered := by
  induction h with
  | null => exact .null
  | boolean b => exact .boolean b
  | number n =>
    cases n with
    | integer n =>
      unfold ofJson
      split
      · exact .integer _
      · exact .string _
    | fraction negative m => exact .string _
  | string s => exact .string s
  | @array items h ih =>
    rw [ofJson, ofJsonItems_eq_map]
    refine .list ?_
    intro p hp
    obtain ⟨v, hv, rfl⟩ := List.mem_map.1 hp
    exact ih v hv
  | @object members names h ih =>
    rw [ofJson, ofJsonMembers_eq_map]
    refine .object (List.pairwise_map.2 names) ?_
    intro m hm
    obtain ⟨m', hm', rfl⟩ := List.mem_map.1 hm
    exact ih m' hm'

end Payload

end WorkflowEngine
