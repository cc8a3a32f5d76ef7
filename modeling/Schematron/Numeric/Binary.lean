/-!
# Doubles as exact numbers

A finite double is an integer times a power of two. Decoding takes it apart, encoding rounds a
quotient of natural numbers to the nearest double, a half to the even one. Everything between the
two is exact arithmetic.
-/

namespace Schematron.Numeric

/-- The number `mantissa · 2 ^ exponent`, with a sign. -/
structure Binary where
  negative : Bool
  mantissa : Nat
  exponent : Int
  deriving DecidableEq, Repr, Inhabited

namespace Binary

/-! ## The format -/

/-- The number of bits after the first one of a mantissa. -/
def fractionBits : Nat := 52

/-- The exponent of the smallest double. -/
def leastExponent : Int := -1074

/-- The bits of an infinite double, the sign apart. -/
def infinityBits : Nat := 2047 * Nat.pow 2 fractionBits

/-- The number a double stands for; infinities and NaN stand for none. -/
def ofFloat? (x : Float) : Option Binary :=
  let bits := x.toBits.toNat
  let negative := bits / Nat.pow 2 63 == 1
  let exponent := bits / Nat.pow 2 fractionBits % 2048
  let fraction := bits % Nat.pow 2 fractionBits
  if exponent = 2047 then none
  else if exponent = 0 then some ⟨negative, fraction, leastExponent⟩
  else some ⟨negative, fraction + Nat.pow 2 fractionBits, leastExponent + exponent - 1⟩

/-! ## Encoding -/

/-- A quotient rounded to the nearest natural number, a half to the even one. -/
def roundDiv (num den : Nat) : Nat :=
  let quotient := num / den
  let rest := num % den
  if 2 * rest < den then quotient
  else if 2 * rest = den then quotient + quotient % 2
  else quotient + 1

/-- A quotient and a power of two as one quotient. -/
def scaled (num den : Nat) (exponent : Int) : Nat × Nat :=
  (num * Nat.pow 2 exponent.toNat, den * Nat.pow 2 (-exponent).toNat)

/-- The exponent at which a quotient has a mantissa of 53 bits, or the least one. -/
def exponentOf (num den : Nat) : Int :=
  let guess : Int := (num.log2 : Int) - den.log2 - (fractionBits + 1)
  let (n, d) := scaled num den (-guess)
  max leastExponent (if n / d < Nat.pow 2 (fractionBits + 1) then guess else guess + 1)

/-- The double nearest to a quotient, infinite beyond the largest one. -/
def nearest (negative : Bool) (num den : Nat) : Float :=
  let magnitude :=
    if num = 0 then 0
    else
      let exponent := exponentOf num den
      let (n, d) := scaled num den (-exponent)
      (exponent - leastExponent).toNat * Nat.pow 2 fractionBits + roundDiv n d
  let bits := min magnitude infinityBits + (if negative then Nat.pow 2 63 else 0)
  Float.ofBits bits.toUInt64

/-- The double nearest to the number. -/
def toFloat (b : Binary) : Float :=
  let (num, den) := scaled b.mantissa 1 b.exponent
  nearest b.negative num den

/-! ## Remainder -/

/-- What is left of the first number after subtracting the second as often as its magnitude
allows; it has the sign of the first. The second number is not zero. -/
def remainder (a b : Binary) : Binary :=
  let exponent := min a.exponent b.exponent
  let m := a.mantissa * Nat.pow 2 (a.exponent - exponent).toNat
  let n := b.mantissa * Nat.pow 2 (b.exponent - exponent).toNat
  ⟨a.negative, m % n, exponent⟩

end Binary

/-- The remainder of doubles: exact on numbers, the first operand if the second is infinite, and
NaN where no remainder is defined. -/
def remainder (x y : Float) : Float :=
  match Binary.ofFloat? x, Binary.ofFloat? y with
  | some a, some b => if b.mantissa = 0 then 0.0 / 0.0 else (a.remainder b).toFloat
  | some _, none => if y.isNaN then y else x
  | none, _ => 0.0 / 0.0

end Schematron.Numeric
