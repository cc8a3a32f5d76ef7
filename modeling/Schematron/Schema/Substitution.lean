import Schematron.Text.Blank

/-!
# Parameter substitution

A reference to a parameter is a dollar sign with the longest name that follows it. All references
of a text are replaced at once: the value of a parameter is not looked through again, and a
reference to anything else stays as it is written.
-/

namespace Schematron.Schema

open Unicode

/-- The parameters of an instance with their values; of two with one name the first one counts. -/
abbrev Parameters := List (String × String)

/-- A part of a text: characters between references, or a reference without its dollar sign. -/
inductive Piece where
  | plain (run : List Char)
  | reference (name : String)
  deriving DecidableEq, Repr

namespace Substitution

/-- A character of the name of a reference. -/
def isReferenceChar (c : Char) : Bool := isAlphanumeric c || c == '_' || c == '-' || c == '.'

/-- The pieces of what follows a dollar sign up to the next one. -/
def piecesAfterDollar (cs : List Char) : List Piece :=
  [.reference (String.ofList (cs.takeWhile isReferenceChar)), .plain (cs.dropWhile isReferenceChar)]

/-- The pieces of a text. -/
def pieces (text : String) : List Piece :=
  match Text.splitAt (· == '$') text.toList with
  | [] => []
  | first :: rest => .plain first :: rest.flatMap piecesAfterDollar

/-- What a piece is replaced by. -/
def replacement (parameters : Parameters) : Piece → List Char
  | .plain run => run
  | .reference name =>
    match parameters.lookup name with
    | some value => value.toList
    | none => '$' :: name.toList

/-- A text with its references to parameters replaced. -/
def apply (parameters : Parameters) (text : String) : String :=
  String.ofList ((pieces text).flatMap (replacement parameters))

/-- The names of the references of a text, in order. -/
def references (text : String) : List String :=
  (pieces text).filterMap fun
    | .plain _ => none
    | .reference name => some name

/-- The names that are referred to in texts without being known, each once, in the order in which
they come first. The empty name is that of a bare dollar sign. -/
def unresolved (known : String → Bool) (texts : List String) : List String :=
  ((texts.flatMap references).filter fun name => !name.isEmpty && !known name).foldl
    (fun found name => if found.contains name then found else found ++ [name]) []

end Substitution

end Schematron.Schema
