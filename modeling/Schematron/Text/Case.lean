import Schematron.Text.Unicode.Casing
import Schematron.Text.Unicode.Property

/-!
# Upper and lower case of texts

The full mappings, under which a text can grow: a sharp s has two capitals. The capital sigma has
two small forms; at the end of a word, which is after a cased character and not before one, it
takes the final form. Case-ignorable characters are looked through in both directions.
-/

namespace Schematron.Text

open Unicode

/-- The upper case of a character. -/
def upperChar (c : Char) : List Char :=
  match upperExpansions.lookup c.toNat with
  | some codes => codes.map Char.ofNat
  | none => [Char.ofNat (mapCase upperRuns c.toNat)]

/-- A text in upper case. -/
def upper (s : String) : String := String.ofList (s.toList.flatMap upperChar)

/-- The first character that is not case-ignorable is cased. -/
def meetsCased (cs : List Char) : Bool :=
  match cs.dropWhile isCaseIgnorable with
  | c :: _ => isCased c
  | [] => false

/-- The lower case of a character between those before it, the nearest first, and those after. -/
def lowerChar (before : List Char) (c : Char) (after : List Char) : List Char :=
  if c == 'Σ' then [if meetsCased before && !meetsCased after then 'ς' else 'σ']
  else if c == '\u0130' then ['i', '\u0307']
  else [Char.ofNat (mapCase lowerRuns c.toNat)]

/-- Lower case from a place on; `done` holds the result so far, last first. -/
def lowerFrom (before done : List Char) : List Char → List Char
  | [] => done.reverse
  | c :: after =>
    lowerFrom (c :: before) ((lowerChar before c after).reverse ++ done) after

/-- A text in lower case. -/
def lower (s : String) : String := String.ofList (lowerFrom [] [] s.toList)

/-! ## Case of ASCII letters -/

/-- A text with its ASCII capitals in lower case. -/
def lowerAscii (s : String) : String := String.ofList (s.toList.map Char.toLower)

/-- Equal but for the case of ASCII letters. -/
def equalIgnoringCase (a b : String) : Bool := lowerAscii a == lowerAscii b

end Schematron.Text
