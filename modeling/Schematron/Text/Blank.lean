import Schematron.Text.Unicode.Property

/-!
# Blanks, words and pieces

Blanks are the characters with the property White_Space. A text is trimmed by dropping the blanks
at both ends, and normalized by joining its words with one space each.
-/

namespace Schematron.Text

open Unicode

/-! ## Trimming -/

/-- The characters without the leading ones that satisfy `drop` and without the trailing ones. -/
def trimBy (drop : Char → Bool) (cs : List Char) : List Char :=
  ((cs.dropWhile drop).reverse.dropWhile drop).reverse

/-- A text without the blanks at both ends. -/
def trim (s : String) : String := String.ofList (trimBy isBlank s.toList)

/-- A text of nothing but blanks. -/
def allBlank (s : String) : Bool := s.toList.all isBlank

/-! ## Words -/

/-- The maximal runs of characters that are not blank. -/
def words (cs : List Char) : List (List Char) :=
  (cs.splitBy fun a b => isBlank a == isBlank b).filter fun run => !run.all isBlank

/-- The words of a text, joined with one space each. -/
def normalize (s : String) : String :=
  String.intercalate " " ((words s.toList).map String.ofList)

/-! ## Pieces -/

/-- Splits at the first character that satisfies `at?`; the character itself is left out. -/
def cutAt? (at? : Char → Bool) (cs : List Char) : Option (List Char × List Char) :=
  match cs.span (!at? ·) with
  | (before, _ :: after) => some (before, after)
  | (_, []) => none

/-- The pieces between the characters that satisfy `at?`: one more than there are such. -/
def splitAt (at? : Char → Bool) (cs : List Char) : List (List Char) :=
  let step (c : Char) (pieces : List Char × List (List Char)) :=
    if at? c then ([], pieces.1 :: pieces.2) else (c :: pieces.1, pieces.2)
  let pieces := cs.reverse.foldl (fun pieces c => step c pieces) ([], [])
  pieces.1 :: pieces.2

/-- What follows `start` in a text that begins with it. -/
def after? (start : String) (cs : List Char) : Option (List Char) :=
  if start.toList.isPrefixOf cs then some (cs.drop start.length) else none

end Schematron.Text
