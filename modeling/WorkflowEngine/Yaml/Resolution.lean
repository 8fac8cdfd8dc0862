import WorkflowEngine.Decoding.Source
import WorkflowEngine.Number.Reading
import WorkflowEngine.Yaml.Node

/-!
# What scalars mean

A plain scalar may be nothing, a truth value or a number, by its text alone; every other scalar is a
text. A standard tag asks for one of these kinds, and a tag of the document's own names a variant,
which nothing here understands.
-/

namespace WorkflowEngine.Yaml

open Decoding

/-- Whether a text stands for nothing. -/
def isNull (s : String) : Bool := s ∈ ["", "null", "Null", "NULL", "~"]

/-- The truth value of a text. -/
def truth? (s : String) : Option Bool :=
  if s ∈ ["true", "True", "TRUE"] then some true
  else if s ∈ ["false", "False", "FALSE"] then some false
  else none

/-- Drops a character at the beginning. -/
def dropSign (signs : List Char) (cs : List Char) : List Char :=
  match cs with
  | c :: rest => if c ∈ signs then rest else cs
  | [] => []

/-- Whether a number has superfluous zeros in front; then it is no number. -/
def hasLeadingZeros (cs : List Char) : Bool :=
  match dropSign ['-', '+'] cs with
  | '0' :: rest => !rest.isEmpty && rest.all Char.isDigit
  | _ => false

/-- The number of digits of a base. -/
def radixNumber? (base : Nat) (cs : List Char) : Option Nat :=
  match cs.mapM Json.Syntax.hexValue? with
  | some [] | none => none
  | some values =>
    if values.all (· < base) then some (values.foldl (fun n v => base * n + v) 0) else none

/-- A natural number in decimal, hexadecimal, octal or binary digits, without sign. -/
def plainNumber? (whole : List Char) (cs : List Char) : Option Nat :=
  match cs with
  | '0' :: 'x' :: rest => radixNumber? 16 rest
  | '0' :: 'o' :: rest => radixNumber? 8 rest
  | '0' :: 'b' :: rest => radixNumber? 2 rest
  | cs => if hasLeadingZeros whole then none else Text.readDigits cs

/-- An integer in decimal, hexadecimal, octal or binary digits. -/
def integer? (cs : List Char) : Option Int :=
  match cs with
  | '-' :: rest => (plainNumber? cs rest).map fun n => -Int.ofNat n
  | '+' :: rest => (plainNumber? cs rest).map Int.ofNat
  | _ => (plainNumber? cs cs).map Int.ofNat

/-- An integer as content: it has to fit 64 bits, and one that does not fit 128 bits is
no integer. -/
def integerContent? (cs : List Char) : Option (Except Failure Content) :=
  (integer? cs).bind fun n =>
    if -Int.ofNat (Nat.pow 2 63) ≤ n ∧ n < Int.ofNat (Nat.pow 2 64) then some (.ok (.integer n))
    else if -Int.ofNat (Nat.pow 2 127) ≤ n ∧ n < Int.ofNat (Nat.pow 2 128) then
      some (fault (.invalidType "integer of 128 bits" "a value"))
    else none

/-- A floating point number: in decimal, or one of the words for what is no finite number. -/
def floating? (cs : List Char) : Option Number.Floating :=
  let s := String.ofList cs
  if s ∈ [".inf", ".Inf", ".INF", "+.inf", "+.Inf", "+.INF"] then some (.infinite false)
  else if s ∈ ["-.inf", "-.Inf", "-.INF"] then some (.infinite true)
  else if s ∈ [".nan", ".NaN", ".NAN"] then some (.undefined false)
  else match Number.double.read? cs with
    | some (.finite negative m) => some (.finite negative m)
    | _ => none

/-- What a plain scalar means by its text. -/
def plainContent (s : String) : Except Failure Content :=
  let cs := s.toList
  if isNull s then .ok .null
  else match truth? s with
  | some b => .ok (.boolean b)
  | none =>
    match integerContent? cs with
    | some r => r
    | none =>
      match if hasLeadingZeros cs then none else floating? cs with
      | some x => .ok (.floating x)
      | none => .ok (.text s)

/-- The standard tag of a name. -/
def standardTag (name : String) : String := "tag:yaml.org,2002:" ++ name

/-- The variant that a tag names, if it is one of the document's own. -/
def variantOfTag (tag : Option String) : Option String :=
  match tag.map String.toList with
  | some ['!'] => some "!"
  | some ('!' :: rest) => some (String.ofList rest)
  | _ => none

/-- The fault of a scalar that is not what its tag asks for. -/
def notAsTagged (s expected : String) : Except Failure Content :=
  fault (.invalidValue (describeText s) expected)

/-- What a scalar means. -/
def scalarContent (tag : Option String) (style : ScalarStyle) (s : String) :
    Except Failure Content :=
  match tag with
  | none => if style = .plain then plainContent s else .ok (.text s)
  | some t =>
    if (variantOfTag tag).isSome then fault (.invalidType "enum" "a value without a tag")
    else if t = standardTag "bool" then
      match truth? s with
      | some b => .ok (.boolean b)
      | none => notAsTagged s "a boolean"
    else if t = standardTag "int" then
      match integerContent? s.toList with
      | some r => r
      | none => notAsTagged s "an integer"
    else if t = standardTag "float" then
      match floating? s.toList with
      | some x => .ok (.floating x)
      | none => notAsTagged s "a float"
    else if t = standardTag "null" then
      if s ≠ "" ∧ isNull s then .ok .null else notAsTagged s "null"
    else .ok (.text s)

end WorkflowEngine.Yaml
