import Schematron.Numeric.Decimal

/-!
# The shortest decimal that reads back

Every finite double has an interval of numbers that round to it. Among the decimals in the
interval the one with the fewest digits is taken, of those with equally many the nearest one. A
grid of decimals with a point in the interval has one of the two neighbours of the value in it,
so two points are tested on each grid.
-/

namespace Schematron.Numeric.Shortest

/-- The numbers that round to a value, as multiples of `1 / unit`; the ends belong to them if
`closed`. -/
structure Interval where
  low : Nat
  value : Nat
  high : Nat
  unit : Nat
  closed : Bool

/-- The interval of a positive double. Below a power of two the next double is only half as far
away. -/
def Interval.of (b : Binary) : Interval :=
  let narrow := b.mantissa = Nat.pow 2 Binary.fractionBits ∧ Binary.leastExponent < b.exponent
  let (scale, unit) := Binary.scaled 1 4 b.exponent
  let low := 4 * b.mantissa - (if narrow then 1 else 2)
  ⟨low * scale, 4 * b.mantissa * scale, (4 * b.mantissa + 2) * scale, unit,
    b.mantissa % 2 == 0⟩

/-- A point of the grid `10 ^ power`, in the unit of the interval, all multiplied by the second
number. -/
def Interval.at (i : Interval) (n : Nat) (power : Int) : Nat × Nat :=
  (n * Nat.pow 10 power.toNat * i.unit, Nat.pow 10 (-power).toNat)

/-- A point of the grid `10 ^ power` rounds to the value. -/
def Interval.admits (i : Interval) (n : Nat) (power : Int) : Bool :=
  let (point, scale) := i.at n power
  if i.closed then i.low * scale ≤ point && point ≤ i.high * scale
  else i.low * scale < point && point < i.high * scale

/-- The distance of a point of a grid from the value, in a unit that is the same for the grid. -/
def Interval.distance (i : Interval) (n : Nat) (power : Int) : Nat :=
  let (point, scale) := i.at n power
  (point - i.value * scale) + (i.value * scale - point)

/-- The number of the last point of the grid `10 ^ power` that is not above the value. -/
def Interval.below (i : Interval) (power : Int) : Nat :=
  i.value * Nat.pow 10 (-power).toNat / (i.unit * Nat.pow 10 power.toNat)

/-- The point of a grid that stands for the value: of its two neighbours the one that rounds to
it, of two such the nearer one, of two equally near the greater one. -/
def Interval.pick? (i : Interval) (power : Int) : Option Nat :=
  let n := i.below power
  match i.admits n power, i.admits (n + 1) power with
  | true, true => some (if i.distance n power < i.distance (n + 1) power then n else n + 1)
  | true, false => some n
  | false, true => some (n + 1)
  | false, false => none

/-- Searches the grids from coarse to fine. -/
def Interval.search (i : Interval) : (fuel : Nat) → (power : Int) → Decimal
  | 0, power => { digits := i.below power, exponent := power }
  | fuel + 1, power =>
    match i.pick? power with
    | some n => { digits := n, exponent := power }
    | none => Interval.search i fuel (power - 1)

/-- The power of ten of the first digit, or one more. -/
def leadingPower (b : Binary) : Int :=
  ((b.mantissa.log2 : Int) + b.exponent + 1) * 30103 / 100000 + 1

/-- The shortest decimal of a finite double. -/
def ofBinary (b : Binary) : Decimal :=
  if b.mantissa = 0 then { negative := b.negative, digits := 0 }
  else
    let found := (Interval.of b).search 20 (leadingPower b)
    { found.strip 20 with negative := b.negative }

end Schematron.Numeric.Shortest
