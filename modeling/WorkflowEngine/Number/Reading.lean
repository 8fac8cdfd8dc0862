import WorkflowEngine.Number.Binary
import WorkflowEngine.Text.Integer

/-!
# Reading decimal fractions

A decimal fraction is an optional sign, digits with at most one point among or beside them, and an
optional exponent. It denotes the nearest magnitude of a format.
-/

namespace WorkflowEngine.Number

open Text

/-- An exponent after its letter: an optional sign and digits. -/
def readExponent? (cs : List Char) : Option Int :=
  match cs with
  | '-' :: digits => (readDigits digits).map fun n => -Int.ofNat n
  | '+' :: digits => (readDigits digits).map Int.ofNat
  | digits => (readDigits digits).map Int.ofNat

/-- The digits before the point, those after it, and the exponent of a fraction without sign. -/
def splitFraction? (cs : List Char) : Option (List Char × List Char × Int) := do
  let (whole, rest) := cs.span Char.isDigit
  let (part, rest) := match rest with
    | '.' :: more => more.span Char.isDigit
    | rest => ([], rest)
  if whole.isEmpty && part.isEmpty then none
  match rest with
  | [] => return (whole, part, 0)
  | c :: exponent =>
    if c == 'e' || c == 'E' then return (whole, part, ← readExponent? exponent) else none

/-- The magnitude of a fraction without sign; nothing inside if it lies beyond the finite range. -/
def Format.readMagnitude? (f : Format) (cs : List Char) : Option (Option Magnitude) := do
  let (whole, part, exponent) ← splitFraction? cs
  let digits := natOfDigits (whole ++ part)
  return f.ofDecimal digits (Nat.toDigits 10 digits).length (exponent - part.length)

/-- The number of a fraction with an optional sign. -/
def Format.read? (f : Format) (cs : List Char) : Option Floating :=
  let (negative, cs) := match cs with
    | '-' :: rest => (true, rest)
    | '+' :: rest => (false, rest)
    | rest => (false, rest)
  (f.readMagnitude? cs).map fun m =>
    match m with
    | some m => .finite negative m
    | none => .infinite negative

end WorkflowEngine.Number
