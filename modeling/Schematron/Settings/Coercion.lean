import Schematron.Numeric.Shortest
import Schematron.Numeric.Width
import Schematron.Text.Case
import Schematron.Text.Digits
import Schematron.Toml.Value

/-!
# Coercions

A setting is taken in whatever form it is written, if that form has a meaning for its type: a
switch can be a number or a word, a number can be a switch or a text, and a text can be any value
that is not made of others.
-/

namespace Schematron.Settings

open Toml (Value)

/-- The words that turn a switch on. -/
def onWords : List String := ["true", "on", "yes"]

/-- The words that turn a switch off. -/
def offWords : List String := ["false", "off", "no"]

/-- The text of a double: as few digits as possible, and no exponent. -/
def floatText (x : Float) : String :=
  match Numeric.Binary.ofFloat? x with
  | some b => (Numeric.Shortest.ofBinary b).positional
  | none => if x.isNaN then "NaN" else if x < 0 then "-inf" else "inf"

/-- An integer that fits into 64 bits, with an optional sign. -/
def integerText? (text : String) : Option Int :=
  let magnitude (cs : List Char) : Option Int := (Text.digits? 10 cs).map Int.ofNat
  let n? :=
    match text.toList with
    | '-' :: cs => (magnitude cs).map (- ·)
    | '+' :: cs => magnitude cs
    | cs => magnitude cs
  n?.filter (Numeric.fitsSigned 64)

/-- The nearest integer, a half rounded away from zero; NaN counts as zero. -/
def roundFloat (x : Float) : Int := if x.isNaN then 0 else x.round.toInt64.toInt

/-- The value as a switch. -/
def switch? : Value → Option Bool
  | .boolean b => some b
  | .integer n => some (n != 0)
  | .float x => some (x != 0)
  | .string text =>
    let word := Text.lower text
    if word == "1" || onWords.contains word then some true
    else if word == "0" || offWords.contains word then some false
    else none
  | _ => none

/-- The value as an integer. -/
def integer? : Value → Option Int
  | .integer n => some n
  | .boolean b => some (if b then 1 else 0)
  | .float x => some (roundFloat x)
  | .string text =>
    let word := Text.lower text
    if onWords.contains word then some 1
    else if offWords.contains word then some 0
    else integerText? text
  | _ => none

/-- The value as an integer of 32 bits. -/
def smallInteger? (v : Value) : Option Int :=
  (integer? v).filter (Numeric.fitsSigned 32)

/-- The value as a text. -/
def text? : Value → Option String
  | .string text | .datetime text => some text
  | .boolean b => some (if b then "true" else "false")
  | .integer n => some (toString n)
  | .float x => some (floatText x)
  | .array _ | .table _ => none

end Schematron.Settings
