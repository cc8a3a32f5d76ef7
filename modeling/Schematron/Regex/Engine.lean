/-!
# Engines of regular expressions

What expressions need of regular expressions: a pattern is built, a text is searched for a match,
and the matches in it are replaced. Patterns and replacements are languages of their own, which
only the engine reads.
-/

namespace Schematron.Regex

/-- What a pattern is built under. -/
structure Options where
  ignoreCase : Bool := false
  dotAll : Bool := false
  multiLine : Bool := false
  extended : Bool := false
  deriving DecidableEq, Repr, Inhabited

/-- A regular expression that was built. -/
structure Matcher where
  /-- The text has a match. -/
  isMatch : (text : List Char) → Bool
  /-- The text with all its matches replaced. -/
  replaceAll : (text replacement : List Char) → List Char

/-- An engine builds the regular expression of a pattern, or says why it has none. It is inferred,
so that what only hands patterns on does not have to name it. -/
class Engine where
  build : Options → (pattern : String) → Except String Matcher

end Schematron.Regex
