import WorkflowEngine.Error
import WorkflowEngine.Json.Syntax
import WorkflowEngine.Text.LetterCase

/-!
# Payloads

A payload is the content of a value: nothing, a text, an integer of 64 bits, a truth value, members
by name, or a list. There are no fractions: a JSON number that is no such integer becomes the text
of the number. A payload has a canonical text, and a text can be read as a payload of a given type.

The lemmas say that equality is decided structurally and that a payload survives the way through
JSON.
-/

namespace WorkflowEngine

/-- The semantic shape of a value. -/
inductive ValueType where
  /-- Texts. -/
  | string
  /-- Integers of 64 bits. -/
  | integer
  /-- Truth values. -/
  | boolean
  /-- Members by name. -/
  | object
  /-- Lists. -/
  | list
  /-- Every payload. -/
  | any
  deriving DecidableEq, Repr, Inhabited

namespace ValueType

/-- Every type. -/
def all : List ValueType := [.string, .integer, .boolean, .object, .list, .any]

/-- The name of a type. -/
def name : ValueType → String
  | .string => "string"
  | .integer => "integer"
  | .boolean => "boolean"
  | .object => "object"
  | .list => "list"
  | .any => "any"

/-- The type of a name; integers also go by a short name. -/
def ofName? (s : String) : Option ValueType :=
  if s = "int" then some .integer else all.find? fun t => t.name == s

/-- A type's name stands for the type. -/
@[simp] theorem ofName?_name (t : ValueType) : ofName? t.name = some t := by
  cases t <;> decide

end ValueType

/-- The content of a value. -/
inductive Payload where
  /-- No content. -/
  | null
  /-- A text. -/
  | string (value : String)
  /-- An integer of 64 bits. -/
  | integer (value : Int64)
  /-- A truth value. -/
  | boolean (value : Bool)
  /-- Members by name, the names ascending. -/
  | object (members : List (String × Payload))
  /-- A list. -/
  | list (items : List Payload)
  deriving Inhabited, Repr

namespace Payload

/-! ## Equality -/

mutual

/-- Whether two payloads are built in the same way. -/
def same : Payload → Payload → Bool
  | .null, .null => true
  | .string a, .string b => a == b
  | .integer a, .integer b => a == b
  | .boolean a, .boolean b => a == b
  | .object a, .object b => sameMembers a b
  | .list a, .list b => sameItems a b
  | _, _ => false

/-- Whether two lists hold the same payloads in the same order. -/
def sameItems : List Payload → List Payload → Bool
  | [], [] => true
  | p :: ps, q :: qs => same p q && sameItems ps qs
  | _, _ => false

/-- Whether two lists hold the same members in the same order. -/
def sameMembers : List (String × Payload) → List (String × Payload) → Bool
  | [], [] => true
  | (m, p) :: ps, (n, q) :: qs => m == n && (same p q && sameMembers ps qs)
  | _, _ => false

end

mutual

/-- Payloads are built in the same way exactly when they are equal. -/
theorem same_iff : (p q : Payload) → (same p q = true ↔ p = q)
  | .null, q => by cases q <;> simp [same]
  | .string _, q => by cases q <;> simp [same]
  | .integer _, q => by cases q <;> simp [same]
  | .boolean _, q => by cases q <;> simp [same]
  | .object a, q => by cases q <;> simp [same, sameMembers_iff a]
  | .list a, q => by cases q <;> simp [same, sameItems_iff a]

/-- Lists of payloads agree item by item exactly when they are equal. -/
theorem sameItems_iff : (ps qs : List Payload) → (sameItems ps qs = true ↔ ps = qs)
  | [], qs => by cases qs <;> simp [sameItems]
  | p :: ps, qs => by cases qs <;> simp [sameItems, same_iff p, sameItems_iff ps]

/-- Lists of members agree one by one exactly when they are equal. -/
theorem sameMembers_iff :
    (ps qs : List (String × Payload)) → (sameMembers ps qs = true ↔ ps = qs)
  | [], qs => by cases qs <;> simp [sameMembers]
  | (m, p) :: ps, qs => by
    cases qs with
    | nil => simp [sameMembers]
    | cons q qs =>
      obtain ⟨n, q⟩ := q
      simp [sameMembers, same_iff p, sameMembers_iff ps, and_assoc]

end

instance : DecidableEq Payload := fun p q => decidable_of_iff _ (same_iff p q)

/-! ## Kinds of payload -/

/-- The type that a payload is of; nothing at all is of any type. -/
def type : Payload → ValueType
  | .null => .any
  | .string _ => .string
  | .integer _ => .integer
  | .boolean _ => .boolean
  | .object _ => .object
  | .list _ => .list

/-- The text of a payload that is one. -/
def asText? : Payload → Option String
  | .string s => some s
  | _ => none

/-- The integer of a payload that is one. -/
def asInteger? : Payload → Option Int64
  | .integer i => some i
  | _ => none

/-- The truth value of a payload that is one. -/
def asBoolean? : Payload → Option Bool
  | .boolean b => some b
  | _ => none

/-- Whether a payload has no content. -/
def isNull : Payload → Bool
  | .null => true
  | _ => false

end Payload

/-- Whether a payload has the shape of a type; one without content has every shape. -/
def ValueType.admits (t : ValueType) (p : Payload) : Bool := t == .any || p.isNull || t == p.type

namespace Payload

/-- A payload has the shape of its own type. -/
theorem admits_type (p : Payload) : p.type.admits p = true := by
  simp [ValueType.admits]

/-! ## JSON -/

mutual

/-- The payload of a JSON value. -/
def ofJson : Json → Payload
  | .null => .null
  | .boolean b => .boolean b
  | .number (.integer n) =>
    if Int64.minValue.toInt ≤ n ∧ n ≤ Int64.maxValue.toInt then .integer (Int64.ofInt n)
    else .string (String.ofList (Json.Number.integer n).render)
  | .number (.fraction negative m) =>
    .string (String.ofList (Json.Number.fraction negative m).render)
  | .string s => .string s
  | .array items => .list (ofJsonItems items)
  | .object members => .object (ofJsonMembers members)

/-- The payloads of JSON values. -/
def ofJsonItems : List Json → List Payload
  | [] => []
  | v :: rest => ofJson v :: ofJsonItems rest

/-- The payloads of the members of a JSON object. -/
def ofJsonMembers : List (String × Json) → List (String × Payload)
  | [] => []
  | (name, v) :: rest => (name, ofJson v) :: ofJsonMembers rest

end

mutual

/-- A payload as a JSON value. -/
def toJson : Payload → Json
  | .null => .null
  | .string s => .string s
  | .integer i => .number (.integer i.toInt)
  | .boolean b => .boolean b
  | .object members => .object (toJsonMembers members)
  | .list items => .array (toJsonItems items)

/-- Payloads as JSON values. -/
def toJsonItems : List Payload → List Json
  | [] => []
  | p :: rest => toJson p :: toJsonItems rest

/-- Members as members of a JSON object. -/
def toJsonMembers : List (String × Payload) → List (String × Json)
  | [] => []
  | (name, p) :: rest => (name, toJson p) :: toJsonMembers rest

end

mutual

/-- A payload survives the way through JSON. -/
@[simp] theorem ofJson_toJson : (p : Payload) → ofJson p.toJson = p
  | .null => rfl
  | .string _ => rfl
  | .integer i => by
    have h : Int64.minValue.toInt ≤ i.toInt ∧ i.toInt ≤ Int64.maxValue.toInt :=
      ⟨i.minValue_le_toInt, i.toInt_le⟩
    rw [toJson, ofJson, if_pos h, Int64.ofInt_toInt]
  | .boolean _ => rfl
  | .object members => by simp [toJson, ofJson, ofJsonMembers_toJsonMembers members]
  | .list items => by simp [toJson, ofJson, ofJsonItems_toJsonItems items]

/-- Payloads survive the way through JSON. -/
theorem ofJsonItems_toJsonItems : (ps : List Payload) → ofJsonItems (toJsonItems ps) = ps
  | [] => rfl
  | p :: rest => by
    simp [toJsonItems, ofJsonItems, ofJson_toJson p, ofJsonItems_toJsonItems rest]

/-- Members survive the way through JSON. -/
theorem ofJsonMembers_toJsonMembers :
    (ms : List (String × Payload)) → ofJsonMembers (toJsonMembers ms) = ms
  | [] => rfl
  | (_, p) :: rest => by
    simp [toJsonMembers, ofJsonMembers, ofJson_toJson p, ofJsonMembers_toJsonMembers rest]

end

/-! ## Texts -/

/-- The canonical text: a text stands for itself, everything else is written as compact JSON. -/
def text : Payload → String
  | .string s => s
  | p => p.toJson.compact

/-- Reads a text that must be JSON. -/
def readJson (text : String) : Except Error Json :=
  match Json.ofText? text with
  | some v => .ok v
  | none => .error (.json "the text is not well formed")

/-- Reads a text as a payload of a type. Integers and truth values may stand between blanks; a text
of any type is read as JSON if it is JSON. -/
def parseAs (text : String) : ValueType → Except Error Payload
  | .string => .ok (.string text)
  | .integer =>
    match Text.readInt64 (Text.trim text) with
    | some i => .ok (.integer i)
    | none => .error (.read (.notInteger text))
  | .boolean =>
    match Text.toSmall (Text.trim text) with
    | "true" => .ok (.boolean true)
    | "false" => .ok (.boolean false)
    | _ => .error (.read (.notBoolean text))
  | .object =>
    match readJson text with
    | .ok (.object members) => .ok (ofJson (.object members))
    | .ok _ => .error (.read (.notObject text))
    | .error e => .error e
  | .list =>
    match readJson text with
    | .ok (.array items) => .ok (ofJson (.array items))
    | .ok _ => .error (.read (.notList text))
    | .error e => .error e
  | .any => .ok (((Json.ofText? text).map ofJson).getD (.string text))

/-- Brings a payload closer to a type where there is a conversion, and leaves it alone elsewhere:
everything has a text, and a text may denote an integer or a truth value. -/
def coerce (t : ValueType) (p : Payload) : Payload :=
  match t, p with
  | .string, p => .string p.text
  | .integer, .string s =>
    match Text.readInt64 (Text.trim s) with
    | some i => .integer i
    | none => .string s
  | .boolean, .string s =>
    match Text.trim s with
    | "true" => .boolean true
    | "false" => .boolean false
    | _ => .string s
  | _, p => p

end Payload

end WorkflowEngine
