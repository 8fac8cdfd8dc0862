import WorkflowEngine.Number.Binary

/-!
# The shortest decimal that reads back

A magnitude of a binary format is written with the fewest decimal digits that round to it again. Of
several such decimals the nearest is taken, and of two equally near ones the one with the even last
digit. For each number of digits only the two neighbours of the magnitude on that decimal grid can
qualify, and they are compared exactly.
-/

namespace WorkflowEngine.Number

/-- `digits · 10 ^ exponent`. -/
structure Decimal where
  /-- The decimal digits, read as a natural number. -/
  digits : Nat
  /-- The power of ten that the last digit stands for. -/
  exponent : Int
  deriving DecidableEq, Repr, Inhabited

namespace Shortest

/-- The reals that round to a magnitude, as multiples of a common unit `num / den`. -/
structure Interval where
  /-- Numerator of the unit. -/
  num : Nat
  /-- Denominator of the unit. -/
  den : Nat
  /-- The lower end. -/
  low : Nat
  /-- The magnitude itself. -/
  value : Nat
  /-- The upper end. -/
  high : Nat
  /-- Whether the ends belong to it. -/
  closed : Bool

/-- The interval of a magnitude: half a unit to each side, a quarter below a power of two. -/
def intervalOf (f : Format) (m : Magnitude) : Interval :=
  let e := m.exponent - 2
  let narrow := m.significand = Nat.pow 2 (f.precision - 1) ∧ f.least < m.exponent
  { num := Nat.pow 2 e.toNat
    den := Nat.pow 2 (-e).toNat
    low := 4 * m.significand - (if narrow then 1 else 2)
    value := 4 * m.significand
    high := 4 * m.significand + 2
    closed := m.significand % 2 = 0 }

/-- Compares `count` units with a decimal. -/
def compareWith (i : Interval) (count : Nat) (d : Decimal) : Ordering :=
  compare (count * i.num * Nat.pow 10 (-d.exponent).toNat)
    (d.digits * Nat.pow 10 d.exponent.toNat * i.den)

/-- Whether a decimal rounds to the magnitude. -/
def holds (i : Interval) (d : Decimal) : Bool :=
  let atLow := compareWith i i.low d
  let atHigh := compareWith i i.high d
  (atLow == .lt || (i.closed && atLow == .eq)) && (atHigh == .gt || (i.closed && atHigh == .eq))

/-- The number of units of `10 ^ s` below the magnitude. -/
def below (i : Interval) (s : Int) : Nat :=
  (i.value * i.num * Nat.pow 10 (-s).toNat) / (i.den * Nat.pow 10 s.toNat)

/-- Whether the magnitude is nearer to the lower of two neighbours on a grid; ties go to
the even. -/
def prefersLower (i : Interval) (d : Nat) (s : Int) : Bool :=
  let middle : Decimal := ⟨(2 * d + 1) * 5, s - 1⟩
  match compareWith i i.value middle with
  | .lt => true
  | .gt => false
  | .eq => d % 2 == 0

/-- The decimal on the grid of `10 ^ s` that reads back, if there is one. -/
def onGrid (i : Interval) (s : Int) : Option Decimal :=
  let d := below i s
  let lower : Decimal := ⟨d, s⟩
  let upper : Decimal := ⟨d + 1, s⟩
  match holds i lower, holds i upper with
  | true, true => some (if prefersLower i d s then lower else upper)
  | true, false => some lower
  | false, true => some upper
  | false, false => none

/-- The exponent of the magnitude's first decimal digit. -/
def leadingExponent (i : Interval) : Int :=
  let num := i.value * i.num
  let guess : Int := (Int.ofNat num.log2 - Int.ofNat i.den.log2) * 30103 / 100000 - 1
  if 10 ≤ below i guess then
    if 100 ≤ below i guess then guess + 2 else guess + 1
  else guess

/-- Drops zeros at the end of the digits. -/
def dropZeros (fuel : Nat) (d : Decimal) : Decimal :=
  match fuel with
  | 0 => d
  | fuel + 1 =>
    if d.digits % 10 = 0 ∧ d.digits ≠ 0 then dropZeros fuel ⟨d.digits / 10, d.exponent + 1⟩ else d

/-- The first grid, from coarse to fine, on which some decimal reads back. -/
def search (i : Interval) (s : Int) : Nat → Decimal
  | 0 => ⟨below i s, s⟩
  | more + 1 =>
    match onGrid i s with
    | some d => d
    | none => search i (s - 1) more

end Shortest

/-- The shortest decimal that rounds to a magnitude of a format. -/
def Format.shortest (f : Format) (m : Magnitude) : Decimal :=
  if m.isZero then ⟨0, 0⟩
  else
    let i := Shortest.intervalOf f m
    Shortest.dropZeros 20 (Shortest.search i (Shortest.leadingExponent i) 17)

end WorkflowEngine.Number
