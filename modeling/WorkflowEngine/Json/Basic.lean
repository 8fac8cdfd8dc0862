import WorkflowEngine.Ascending
import WorkflowEngine.Json.Number

/-!
# JSON values and their texts

A JSON value is a tree; the members of an object are listed by ascending name. The compact text has
no blanks; the wide text puts every item on a line of its own. Both escape the quote, the backslash
and the control characters below the space, and nothing else.
-/

namespace WorkflowEngine

/-- A JSON value. -/
inductive Json where
  /-- The value `null`. -/
  | null
  /-- A truth value. -/
  | boolean (value : Bool)
  /-- A number. -/
  | number (value : Json.Number)
  /-- A text. -/
  | string (value : String)
  /-- A list. -/
  | array (items : List Json)
  /-- Members by name, the names ascending. -/
  | object (members : List (String × Json))
  deriving Inhabited

namespace Json

/-- The object with given members; of members of one name the last counts. -/
def ofMembers (members : List (String × Json)) : Json :=
  .object (Ascending.ofList members : Dictionary Json).toList

/-- An integer as a JSON value. -/
def ofInt (n : Int) : Json := .number (.integer n)

/-- A list of texts as a JSON value. -/
def ofTexts (texts : List String) : Json := .array (texts.map .string)

/-- The member of a name in an object. -/
def member? (v : Json) (name : String) : Option Json :=
  match v with
  | .object members => (members.find? (·.1 == name)).map Prod.snd
  | _ => none

/-! ## Texts -/

/-- A hexadecimal digit in small letters. -/
def hexDigit (n : Nat) : Char := Nat.digitChar n

/-- A character inside quotes. -/
def escape (c : Char) : List Char :=
  if c = '"' then ['\\', '"']
  else if c = '\\' then ['\\', '\\']
  else if c = '\n' then ['\\', 'n']
  else if c = '\r' then ['\\', 'r']
  else if c = '\t' then ['\\', 't']
  else if c = '\x08' then ['\\', 'b']
  else if c = '\x0c' then ['\\', 'f']
  else if c.toNat < 0x20 then
    ['\\', 'u', '0', '0', hexDigit (c.toNat / 16), hexDigit (c.toNat % 16)]
  else [c]

/-- A text in quotes. -/
def quote (s : String) : List Char := '"' :: s.toList.flatMap escape ++ ['"']

mutual

/-- The characters of the compact text. -/
def render : Json → List Char
  | .null => ['n', 'u', 'l', 'l']
  | .boolean true => ['t', 'r', 'u', 'e']
  | .boolean false => ['f', 'a', 'l', 's', 'e']
  | .number n => n.render
  | .string s => quote s
  | .array [] => ['[', ']']
  | .array (v :: rest) => '[' :: render v ++ renderItems rest
  | .object [] => ['{', '}']
  | .object ((name, v) :: rest) => '{' :: quote name ++ ':' :: render v ++ renderMembers rest

/-- The items after the first one, and the closing bracket. -/
def renderItems : List Json → List Char
  | [] => [']']
  | v :: rest => ',' :: render v ++ renderItems rest

/-- The members after the first one, and the closing brace. -/
def renderMembers : List (String × Json) → List Char
  | [] => ['}']
  | (name, v) :: rest => ',' :: quote name ++ ':' :: render v ++ renderMembers rest

end

/-- The text without blanks. -/
def compact (v : Json) : String := String.ofList v.render

/-- A line break and an indentation of two blanks a level. -/
def newLine (level : Nat) : List Char := '\n' :: List.replicate (2 * level) ' '

mutual

/-- The characters of the wide text at a level of indentation. -/
def renderWide (level : Nat) : Json → List Char
  | .array (v :: rest) =>
    '[' :: newLine (level + 1) ++ renderWide (level + 1) v ++ renderItemsWide level rest
  | .object ((name, v) :: rest) =>
    '{' :: newLine (level + 1) ++ quote name ++ ':' :: ' ' :: renderWide (level + 1) v ++
      renderMembersWide level rest
  | .array [] => ['[', ']']
  | .object [] => ['{', '}']
  | .null => ['n', 'u', 'l', 'l']
  | .boolean true => ['t', 'r', 'u', 'e']
  | .boolean false => ['f', 'a', 'l', 's', 'e']
  | .number n => n.render
  | .string s => quote s

/-- The items after the first one, and the closing bracket, on lines of their own. -/
def renderItemsWide (level : Nat) : List Json → List Char
  | [] => newLine level ++ [']']
  | v :: rest =>
    ',' :: newLine (level + 1) ++ renderWide (level + 1) v ++ renderItemsWide level rest

/-- The members after the first one, and the closing brace, on lines of their own. -/
def renderMembersWide (level : Nat) : List (String × Json) → List Char
  | [] => newLine level ++ ['}']
  | (name, v) :: rest =>
    ',' :: newLine (level + 1) ++ quote name ++ ':' :: ' ' :: renderWide (level + 1) v ++
      renderMembersWide level rest

end

/-- The text with every item on a line of its own. -/
def wide (v : Json) : String := String.ofList (v.renderWide 0)

end Json

end WorkflowEngine
