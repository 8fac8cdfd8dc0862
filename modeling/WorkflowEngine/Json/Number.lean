import WorkflowEngine.Number.Shortest
import WorkflowEngine.Text.Integer

/-!
# Numbers in JSON texts

A number without fraction and exponent that fits 64 bits, with sign or without, is an integer; every
other number is a binary fraction of 64 bits. Reading forms the fraction in steps that each round:
first the leading digits, as many as fit 64 bits, then a product or quotient with a power of ten.
Writing takes the shortest decimal that reads back.
-/

namespace WorkflowEngine.Json

open Number Text

/-- A JSON number. -/
inductive Number where
  /-- An integer between -2 ^ 63 and 2 ^ 64 - 1. -/
  | integer (value : Int)
  /-- Any other number, rounded to 64 bits. -/
  | fraction (negative : Bool) (magnitude : Magnitude)
  deriving DecidableEq, Repr, Inhabited

namespace Number

/-! ## Writing -/

/-- How the decimal digits of a fraction are laid out. -/
structure Layout where
  /-- The least exponent of the first digit that is written out with leading zeros. -/
  leastPlain : Int
  /-- The greatest exponent of the first digit that is written out with trailing zeros. -/
  greatestPlain : Int

/-- Fractions are written out from 0.00001 up to below 10 ^ 16, with an exponent beyond. -/
def layout : Layout := ⟨-5, 15⟩

/-- Lays digits out around a decimal point that follows `point` of them. -/
def placePoint (digits : List Char) (point : Int) : List Char :=
  let length : Int := digits.length
  if length ≤ point then digits ++ List.replicate (point - length).toNat '0' ++ ['.', '0']
  else if 0 < point then digits.take point.toNat ++ '.' :: digits.drop point.toNat
  else '0' :: '.' :: List.replicate (-point).toNat '0' ++ digits

/-- Writes digits in front of an explicit exponent. -/
def withExponent (digits : List Char) (e : Int) : List Char :=
  let mantissa := match digits with
    | d :: more@(_ :: _) => d :: '.' :: more
    | short => short
  mantissa ++ 'e' :: (if e < 0 then [] else ['+']) ++ ofInt e

/-- The text of a magnitude in a format. -/
def magnitudeText (f : Format) (m : Magnitude) : List Char :=
  if m.isZero then ['0', '.', '0']
  else
    let d := f.shortest m
    let digits := Nat.toDigits 10 d.digits
    let e : Int := d.exponent + digits.length - 1
    if layout.leastPlain ≤ e ∧ e ≤ layout.greatestPlain then placePoint digits (e + 1)
    else withExponent digits e

/-- The text of a number. -/
def render : Number → List Char
  | .integer n => ofInt n
  | .fraction negative m => (if negative then ['-'] else []) ++ magnitudeText double m

/-! ## Reading -/

/-- The parts of a number as written. -/
structure Lexeme where
  /-- Whether a minus stands in front. -/
  negative : Bool
  /-- The digits before the point. -/
  whole : List Char
  /-- The digits after the point, if there is one. -/
  fraction : Option (List Char)
  /-- Whether the exponent is negative, and its digits, if there is one. -/
  exponent : Option (Bool × List Char)
  deriving DecidableEq, Repr

/-- `10 ^ k` rounded, for an exponent within the finite range. -/
def powerOfTen (k : Nat) : Magnitude := (double.round (Nat.pow 10 k) 1).getD double.zero

/-- Divides by `10 ^ k`, in steps of at most `10 ^ 308`. -/
def scaleDown (m : Magnitude) (k : Nat) : Magnitude :=
  if k ≤ 308 then (double.div m (powerOfTen k)).getD double.zero
  else
    let next := (double.div m (powerOfTen 308)).getD double.zero
    if next.isZero then double.zero else scaleDown next (k - 308)
termination_by k

/-- `significand · 10 ^ exponent`, rounded at each step; nothing beyond the finite range. -/
def scale (significand : Nat) (exponent : Int) : Option Magnitude :=
  (double.round significand 1).bind fun m =>
    if exponent < 0 then some (scaleDown m exponent.natAbs)
    else if exponent ≤ 308 then double.mul m (powerOfTen exponent.toNat)
    else if m.isZero then some m
    else none

/-- Takes leading digits into a significand while it stays below 2 ^ 64, and counts them. -/
def absorb (significand taken : Nat) : List Char → Nat × Nat × List Char
  | [] => (significand, taken, [])
  | c :: rest =>
    let next := 10 * significand + digitValue c
    if next < Nat.pow 2 64 then absorb next (taken + 1) rest else (significand, taken, c :: rest)

/-- The exponent as an integer, held within 32 bits. -/
def exponentValue : Option (Bool × List Char) → Int
  | none => 0
  | some (negative, digits) =>
    let n := Int.ofNat (min (natOfDigits digits) (Nat.pow 2 31))
    if negative then -n else n

/-- The number that a lexeme denotes; nothing if it lies beyond the finite range. -/
def ofLexeme (l : Lexeme) : Option Number :=
  let (significand, _, left) := absorb 0 0 l.whole
  if left.isEmpty ∧ l.fraction = none ∧ l.exponent = none then
    if l.negative then
      if 0 < significand ∧ significand ≤ Nat.pow 2 63 then some (.integer (-Int.ofNat significand))
      else (double.round significand 1).map (.fraction true)
    else some (.integer significand)
  else
    let (significand, taken, _) := match l.fraction with
      | none => (significand, 0, [])
      | some digits => absorb significand 0 digits
    (scale significand (left.length - taken + exponentValue l.exponent)).map (.fraction l.negative)

/-- The value as a floating point number. -/
def toFloating (f : Format) : Number → Floating
  | .integer n => Floating.ofInt f n
  | .fraction negative m => Floating.convert f (.finite negative m)

end Number

end WorkflowEngine.Json
