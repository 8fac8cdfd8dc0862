import WorkflowEngine.Decoding.Content

/-!
# Failures of decoding

A document that can be read as such may still not be what it should be: fields are missing or stand
twice, a word is none of the known ones, a list stands where a text belongs. A failure says which,
and where the document's language can tell, at which place.
-/

namespace WorkflowEngine.Decoding

/-- Why a part of a document is not what it should be. -/
inductive Fault where
  /-- A required field is absent. -/
  | missingField (name : String)
  /-- A field stands twice. -/
  | duplicateField (name : String)
  /-- A field that is not known where only known ones may stand. -/
  | unknownField (name : String) (known : List String)
  /-- A word that is none of the known ones. -/
  | unknownVariant (name : String) (known : List String)
  /-- A value of the wrong kind. -/
  | invalidType (found expected : String)
  /-- A value of the right kind that does not fit. -/
  | invalidValue (found expected : String)
  /-- A list that is too short or too long. -/
  | invalidLength (length : Nat)
  /-- The text itself cannot be read to this point, or may not be used to this extent. -/
  | unreadable (reason : String)
  deriving DecidableEq, Repr, Inhabited

/-- Names between grave accents, listed. -/
def listNames (names : List String) : String :=
  let quoted := names.map fun n => "\x60" ++ n ++ "\x60"
  match quoted with
  | [] => "nothing"
  | [a] => a
  | [a, b] => a ++ " or " ++ b
  | many => "one of " ++ String.intercalate ", " many

/-- The message of a fault. -/
def Fault.message : Fault → String
  | .missingField name => "missing field \x60" ++ name ++ "\x60"
  | .duplicateField name => "duplicate field \x60" ++ name ++ "\x60"
  | .unknownField name known =>
    "unknown field \x60" ++ name ++ "\x60, expected " ++ listNames known
  | .unknownVariant name known =>
    "unknown variant \x60" ++ name ++ "\x60, expected " ++ listNames known
  | .invalidType found expected => "invalid type: " ++ found ++ ", expected " ++ expected
  | .invalidValue found expected => "invalid value: " ++ found ++ ", expected " ++ expected
  | .invalidLength length => s!"invalid length {length}"
  | .unreadable reason => reason

/-- A fault and the place where it was found. -/
structure Failure where
  /-- The place, if it is known and is not the whole document. -/
  place : Option String
  /-- The fault. -/
  fault : Fault
  deriving DecidableEq, Repr, Inhabited

namespace Failure

/-- A fault at a place that is not known yet. -/
def ofFault (fault : Fault) : Failure := ⟨none, fault⟩

/-- Names the place of a failure unless it is known; what cannot be read has none. -/
def placedAt (place : String) (f : Failure) : Failure :=
  match f.place, f.fault with
  | none, .unreadable _ => f
  | none, fault => ⟨some place, fault⟩
  | some _, _ => f

/-- The message of a failure, with its place unless that is the whole document. -/
def message (f : Failure) : String :=
  match f.place with
  | some place => if place = "." then f.fault.message else place ++ ": " ++ f.fault.message
  | none => f.fault.message

end Failure

/-- A character as it stands between quotes in a message. -/
def quoteChar (c : Char) : List Char :=
  if c = '"' then ['\\', '"']
  else if c = '\\' then ['\\', '\\']
  else if c = '\n' then ['\\', 'n']
  else if c = '\r' then ['\\', 'r']
  else if c = '\t' then ['\\', 't']
  else if c = '\x00' then ['\\', '0']
  else if c.toNat < 0x20 ∨ c.toNat = 0x7F then
    "\\u\x7b".toList ++ Nat.toDigits 16 c.toNat ++ ['\x7d']
  else [c]

/-- A text as it is named in a message. -/
def describeText (s : String) : String :=
  "string \"" ++ String.ofList (s.toList.flatMap quoteChar) ++ "\""

/-- A content as it is named in a message. -/
def describe : Content → String
  | .null => "unit value"
  | .boolean b => s!"boolean \x60{b}\x60"
  | .integer n => s!"integer \x60{n}\x60"
  | .floating _ => "floating point number"
  | .text s => describeText s
  | .list _ => "sequence"
  | .map _ => "map"

end WorkflowEngine.Decoding
