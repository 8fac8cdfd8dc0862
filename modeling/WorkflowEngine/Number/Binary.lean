/-!
# Binary floating point numbers

A finite magnitude is `significand · 2 ^ exponent`. A format says how many binary digits a
significand has and which exponents there are; a ratio of natural numbers is rounded to the nearest
magnitude of a format, a tie going to the even significand. All arithmetic is on natural numbers, so
nothing depends on the machine's own floating point.
-/

namespace WorkflowEngine.Number

/-- `significand · 2 ^ exponent`. -/
structure Magnitude where
  /-- The binary digits, read as a natural number. -/
  significand : Nat
  /-- The power of two that the last binary digit stands for. -/
  exponent : Int
  deriving DecidableEq, Repr, Inhabited

/-- A binary floating point format. -/
structure Format where
  /-- Binary digits of a significand. -/
  precision : Nat
  /-- Exponent of the least magnitudes, zero among them. -/
  least : Int
  /-- Exponent of the greatest finite magnitudes. -/
  greatest : Int

/-- The 64-bit format. -/
def double : Format := ⟨53, -1074, 971⟩

/-- The 32-bit format. -/
def single : Format := ⟨24, -149, 104⟩

/-- The quotient of two natural numbers to the nearest one, a tie going to the even neighbour. -/
def roundDiv (n d : Nat) : Nat :=
  let q := n / d
  let r := n % d
  if 2 * r < d then q else if d < 2 * r then q + 1 else if q % 2 = 0 then q else q + 1

namespace Magnitude

/-- The magnitude as numerator and denominator. -/
def ratio (m : Magnitude) : Nat × Nat :=
  (m.significand * Nat.pow 2 m.exponent.toNat, Nat.pow 2 (-m.exponent).toNat)

/-- Whether the magnitude is nought. -/
def isZero (m : Magnitude) : Bool := m.significand == 0

end Magnitude

namespace Format

/-- The magnitude nought. -/
def zero (f : Format) : Magnitude := ⟨0, f.least⟩

/-- The quotient `num / den` in units of `2 ^ e`, rounded. -/
def inUnits (num den : Nat) (e : Int) : Nat :=
  roundDiv (num * Nat.pow 2 (-e).toNat) (den * Nat.pow 2 e.toNat)

/-- The exponent whose units leave just the format's binary digits in front of the point. -/
def exponentOf (f : Format) (num den : Nat) : Int :=
  let guess : Int := Int.ofNat num.log2 - Int.ofNat den.log2 - Int.ofNat (f.precision - 1)
  let low :=
    num * Nat.pow 2 (-guess).toNat < den * Nat.pow 2 guess.toNat * Nat.pow 2 (f.precision - 1)
  max (if low then guess - 1 else guess) f.least

/-- The nearest magnitude to `num / den`; nothing beyond the finite range. -/
def round (f : Format) (num den : Nat) : Option Magnitude :=
  if num = 0 then some f.zero
  else
    let e := f.exponentOf num den
    let q := inUnits num den e
    let m : Magnitude :=
      if q = Nat.pow 2 f.precision then ⟨Nat.pow 2 (f.precision - 1), e + 1⟩ else ⟨q, e⟩
    if f.greatest < m.exponent then none else some m

/-- The nearest magnitude to the product of two. -/
def mul (f : Format) (a b : Magnitude) : Option Magnitude :=
  f.round (a.ratio.1 * b.ratio.1) (a.ratio.2 * b.ratio.2)

/-- The nearest magnitude to the quotient of two, the second not nought. -/
def div (f : Format) (a b : Magnitude) : Option Magnitude :=
  f.round (a.ratio.1 * b.ratio.2) (a.ratio.2 * b.ratio.1)

/-- The nearest magnitude to `digits · 10 ^ exponent`, where `digits` has `count` decimal digits.

Exponents far outside the range are settled without forming the power. -/
def ofDecimal (f : Format) (digits count : Nat) (exponent : Int) : Option Magnitude :=
  if digits = 0 then some f.zero
  else if 400 < exponent + count then none
  else if exponent + count < -400 then some f.zero
  else f.round (digits * Nat.pow 10 exponent.toNat) (Nat.pow 10 (-exponent).toNat)

/-- The bit pattern of a finite magnitude, without the sign. -/
def bits (f : Format) (m : Magnitude) : Nat :=
  let hidden := Nat.pow 2 (f.precision - 1)
  if m.significand < hidden then m.significand
  else (m.exponent - f.least + 1).toNat * hidden + (m.significand - hidden)

/-- The bit pattern of infinity. -/
def infinityBits (f : Format) : Nat :=
  (f.greatest - f.least + 2).toNat * Nat.pow 2 (f.precision - 1)

/-- The bit pattern that stands for an undefined result. -/
def undefinedBits (f : Format) : Nat := f.infinityBits + Nat.pow 2 (f.precision - 2)

/-- The pattern of the sign. -/
def signBit (f : Format) : Nat :=
  (f.greatest - f.least + 3).toNat * Nat.pow 2 (f.precision - 1)

end Format

/-- A floating point number. -/
inductive Floating where
  /-- A signed magnitude. -/
  | finite (negative : Bool) (magnitude : Magnitude)
  /-- A number beyond the finite range. -/
  | infinite (negative : Bool)
  /-- No number. -/
  | undefined (negative : Bool)
  deriving DecidableEq, Repr, Inhabited

namespace Floating

/-- The number's value rounded to a format. -/
def convert (f : Format) : Floating → Floating
  | .finite negative m =>
    match f.round m.ratio.1 m.ratio.2 with
    | some r => .finite negative r
    | none => .infinite negative
  | other => other

/-- The nearest number of a format to an integer. -/
def ofInt (f : Format) (n : Int) : Floating :=
  match f.round n.natAbs 1 with
  | some m => .finite (n < 0) m
  | none => .infinite (n < 0)

/-- The bit pattern of a number in a format. -/
def bits (f : Format) : Floating → Nat
  | .finite negative m => (if negative then f.signBit else 0) + f.bits m
  | .infinite negative => (if negative then f.signBit else 0) + f.infinityBits
  | .undefined negative => (if negative then f.signBit else 0) + f.undefinedBits

end Floating

end WorkflowEngine.Number
