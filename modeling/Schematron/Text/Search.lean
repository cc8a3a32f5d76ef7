/-!
# Searching texts

The first place of a text at which another one stands.
-/

namespace Schematron.Text

/-- Searches from a place on; `before` holds the characters before it, last first. -/
def cutAroundFrom (wanted before : List Char) : List Char → Option (List Char × List Char)
  | [] => if wanted.isEmpty then some (before.reverse, []) else none
  | c :: rest =>
    if wanted.isPrefixOf (c :: rest) then
      some (before.reverse, (c :: rest).drop wanted.length)
    else cutAroundFrom wanted (c :: before) rest

/-- What stands before and after the first place of a text. -/
def cutAround? (wanted text : List Char) : Option (List Char × List Char) :=
  cutAroundFrom wanted [] text

end Schematron.Text
