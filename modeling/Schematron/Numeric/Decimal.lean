import Schematron.Numeric.Binary

/-!
# Decimal numbers

A decimal is an integer times a power of ten: what is written of a number. Reading rounds to the
nearest double, so a decimal of any length means the double next to it.
-/

namespace Schematron.Numeric

/-- The number `digits · 10 ^ exponent`, with a sign. -/
structure Decimal where
  negative : Bool := false
  digits : Nat
  exponent : Int := 0
  deriving DecidableEq, Repr, Inhabited

namespace Decimal

/-! ## To doubles -/

/-- A power of ten above which a decimal rounds to an infinite double. -/
def largestPower : Int := 310

/-- A power of ten below which a decimal rounds to zero. -/
def smallestPower : Int := -330

/-- The number of decimal digits of a number; zero has one. -/
def digitCount (n : Nat) : Nat := (Nat.toDigits 10 n).length

/-- The double nearest to the decimal. -/
def toFloat (d : Decimal) : Float :=
  let power : Int := digitCount d.digits + d.exponent
  if d.digits = 0 ∨ power < smallestPower then Binary.nearest d.negative 0 1
  else if largestPower < power then Binary.nearest d.negative (Nat.pow 2 1024) 1
  else
    Binary.nearest d.negative (d.digits * Nat.pow 10 d.exponent.toNat)
      (Nat.pow 10 (-d.exponent).toNat)

/-! ## Reading -/

/-- The value of a run of digits. -/
def digitsValue (cs : List Char) : Nat :=
  cs.foldl (fun n c => n * 10 + (c.toNat - '0'.toNat)) 0

/-- Reads an exponent after its mark: a sign, which may be left out, and digits. -/
def readExponent? (cs : List Char) : Option Int :=
  let (negative, digits) : Bool × List Char :=
    match cs with
    | '-' :: rest => (true, rest)
    | '+' :: rest => (false, rest)
    | _ => (false, cs)
  if digits.isEmpty || !digits.all Char.isDigit then none
  else some (if negative then -(digitsValue digits : Int) else digitsValue digits)

/-- Reads an unsigned decimal: digits with a point before, between or after them, and an
exponent. -/
def readUnsigned? (negative : Bool) (cs : List Char) : Option Decimal :=
  let (whole, rest) := cs.span Char.isDigit
  let (fraction, rest) : List Char × List Char :=
    match rest with
    | '.' :: rest => rest.span Char.isDigit
    | _ => ([], rest)
  let digits := whole ++ fraction
  let decimal (exponent : Int) : Decimal :=
    ⟨negative, digitsValue digits, exponent - fraction.length⟩
  if digits.isEmpty then none
  else
    match rest with
    | [] => some (decimal 0)
    | c :: rest =>
      if c == 'e' || c == 'E' then (readExponent? rest).map decimal else none

/-! ## Writing -/

/-- The decimal with as few digits as possible. -/
def strip : (fuel : Nat) → Decimal → Decimal
  | 0, d => d
  | fuel + 1, d =>
    if d.digits ≠ 0 ∧ d.digits % 10 = 0 then
      strip fuel { d with digits := d.digits / 10, exponent := d.exponent + 1 }
    else d

def sign (d : Decimal) : String := if d.negative then "-" else ""

/-- The digits before and after the point, at least one before it. -/
def parts (d : Decimal) : String × String :=
  let ds := Nat.toDigits 10 d.digits
  let places := (-d.exponent).toNat
  let ds := List.replicate (places + 1 - ds.length) '0' ++ ds ++
    List.replicate (if d.digits = 0 then 0 else d.exponent.toNat) '0'
  (String.ofList (ds.take (ds.length - places)), String.ofList (ds.drop (ds.length - places)))

/-- The decimal without exponent; a point is written only before digits. -/
def positional (d : Decimal) : String :=
  let (whole, fraction) := d.parts
  d.sign ++ whole ++ (if fraction.isEmpty then "" else "." ++ fraction)

/-- The decimal with one digit before the point and an exponent. -/
def scientific (d : Decimal) : String :=
  match Nat.toDigits 10 d.digits with
  | [] => "0"
  | first :: rest =>
    let fraction := if rest.isEmpty then "" else "." ++ String.ofList rest
    d.sign ++ String.singleton first ++ fraction ++ "e" ++ toString (d.exponent + rest.length)

end Decimal

/-! ## Texts of doubles -/

/-- The spellings of the doubles that are no numbers, in lower case. -/
def special? (cs : List Char) : Option Float :=
  let word := String.ofList (cs.map Char.toLower)
  if word == "inf" || word == "infinity" then some (1.0 / 0.0)
  else if word == "nan" then some (0.0 / 0.0)
  else none

/-- Reads a double: a sign, which may be left out, and a decimal or the name of a special value. -/
def readFloat? (cs : List Char) : Option Float :=
  let read (negative : Bool) (cs : List Char) : Option Float :=
    match special? cs with
    | some x => some (if negative then -x else x)
    | none => (Decimal.readUnsigned? negative cs).map (·.toFloat)
  match cs with
  | '-' :: rest => read true rest
  | '+' :: rest => read false rest
  | _ => read false cs

end Schematron.Numeric
