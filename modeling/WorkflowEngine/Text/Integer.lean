/-!
# Integers in decimal text

An integer is written as an optional sign and at least one ASCII digit. Leading zeros and a leading
plus are allowed, blanks and separators are not. A reader for a range of integers refuses what lies
outside it.
-/

namespace WorkflowEngine.Text

/-- The value of a decimal digit. -/
def digitValue (c : Char) : Nat := c.toNat - 48

/-- The number that a list of digits denotes. -/
def natOfDigits (cs : List Char) : Nat := cs.foldl (fun n c => 10 * n + digitValue c) 0

/-- Reads a non-empty list of digits. -/
def readDigits (cs : List Char) : Option Nat :=
  if !cs.isEmpty && cs.all Char.isDigit then some (natOfDigits cs) else none

/-- Reads digits after an optional plus. -/
def readNat : List Char → Option Nat
  | '+' :: cs => readDigits cs
  | cs => readDigits cs

/-- Reads digits after an optional sign. -/
def readInt : List Char → Option Int
  | '+' :: cs => (readDigits cs).map Int.ofNat
  | '-' :: cs => (readDigits cs).map fun n => -Int.ofNat n
  | cs => (readDigits cs).map Int.ofNat

/-- Reads an integer of 64 bits with sign. -/
def readInt64 (s : String) : Option Int64 :=
  (readInt s.toList).bind fun n =>
    if Int64.minValue.toInt ≤ n ∧ n ≤ Int64.maxValue.toInt then some (Int64.ofInt n) else none

/-- Reads a natural number below 2 ^ 64. -/
def readNat64 (s : String) : Option Nat :=
  (readNat s.toList).bind fun n => if n < Nat.pow 2 64 then some n else none

/-- The decimal text of an integer, with a minus in front of a negative one. -/
def ofInt (n : Int) : List Char :=
  if n < 0 then '-' :: Nat.toDigits 10 n.natAbs else Nat.toDigits 10 n.natAbs

end WorkflowEngine.Text
