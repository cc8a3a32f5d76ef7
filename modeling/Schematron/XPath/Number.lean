import Schematron.Numeric.Shortest
import Schematron.Text.Blank

/-!
# Numbers as text

An expression's number is a double. Its text has the fewest digits that read back and no exponent,
and zero has no sign. A text means a number if it is an optional minus sign and digits with at most
one point; blanks around it do not count.
-/

namespace Schematron.XPath.Number

open Numeric

def nan : Float := 0.0 / 0.0

def infinity : Float := 1.0 / 0.0

/-- Zero without its sign. -/
def unsignedZero (d : Decimal) : Decimal :=
  if d.digits = 0 then { d with negative := false } else d

/-- The text of a number. -/
def format (x : Float) : String :=
  match Binary.ofFloat? x with
  | some b => (unsignedZero (Shortest.ofBinary b)).positional
  | none => if x.isNaN then "NaN" else if x < 0 then "-Infinity" else "Infinity"

/-- The characters of a number without sign: digits, at least one, and at most one point. -/
def isUnsigned (cs : List Char) : Bool :=
  !cs.isEmpty && cs.all (fun c => c.isDigit || c == '.') && cs.count '.' ≤ 1 && cs != ['.']

/-- The number that a text means, NaN if it means none. -/
def parse (s : String) : Float :=
  let cs := Text.trimBy Unicode.isBlank s.toList
  let (negative, body) : Bool × List Char :=
    match cs with
    | '-' :: body => (true, body)
    | _ => (false, cs)
  if isUnsigned body then
    match Decimal.readUnsigned? negative body with
    | some d => d.toFloat
    | none => nan
  else nan

/-- The greatest integer that is not above a number with a half added; of a number that is not
finite the number itself. -/
def round (x : Float) : Float := if x.isFinite then (x + 0.5).floor else x

/-- The text of an unsigned number where tokens are shown: with a point, and with an exponent if
it is very large or very small. -/
def display (x : Float) : String :=
  match Binary.ofFloat? x with
  | none => "inf"
  | some b =>
    let d := Shortest.ofBinary b
    if x != 0 && (x < 0.00001 || 10000000000000000.0 ≤ x) then d.scientific
    else
      let text := d.positional
      if text.contains '.' then text else text ++ ".0"

end Schematron.XPath.Number
