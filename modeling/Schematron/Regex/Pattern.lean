import Schematron.Regex.CharSet

/-!
# Patterns

A pattern describes texts. Of all ways in which it matches from the leftmost possible place on,
the preferred one counts: the earlier alternative first, and as many repetitions as possible, or as
few as possible where it is lazy.
-/

namespace Schematron.Regex

/-- Conditions on the place between two characters. -/
inductive Assertion where
  | textStart | textEnd
  | lineStart | lineEnd
  | lineStartCrlf | lineEndCrlf
  | wordBoundary | noWordBoundary
  | wordStart | wordEnd | wordStartHalf | wordEndHalf
  deriving DecidableEq, Repr

namespace Assertion

/-- The condition holds between two characters; at an end of the text one of them is missing. -/
def holds (isWord : CharSet) (before after : Option Char) : Assertion → Bool
  | textStart => before.isNone
  | textEnd => after.isNone
  | lineStart => before.isNone || before == some '\n'
  | lineEnd => after.isNone || after == some '\n'
  | lineStartCrlf =>
    before.isNone || before == some '\n' || (before == some '\r' && after != some '\n')
  | lineEndCrlf =>
    after.isNone || after == some '\r' || (after == some '\n' && before != some '\r')
  | wordBoundary => before.any isWord != after.any isWord
  | noWordBoundary => before.any isWord == after.any isWord
  | wordStart => !before.any isWord && after.any isWord
  | wordEnd => before.any isWord && !after.any isWord
  | wordStartHalf => !before.any isWord
  | wordEndHalf => !after.any isWord

end Assertion

/-- A pattern. A group remembers what it matched, under its number. -/
inductive Pattern where
  | empty
  | one (set : CharSet)
  | assertion (condition : Assertion) (isWord : CharSet)
  | concat (first second : Pattern)
  | alternate (first second : Pattern)
  | repetition (least : Nat) (most : Option Nat) (greedy : Bool) (body : Pattern)
  | group (number : Nat) (body : Pattern)
  deriving Inhabited

namespace Pattern

def concatAll : List Pattern → Pattern
  | [] => empty
  | [p] => p
  | p :: rest => concat p (concatAll rest)

def alternateAll : List Pattern → Pattern
  | [] => empty
  | [p] => p
  | p :: rest => alternate p (alternateAll rest)

end Pattern

/-- A regular expression: a pattern with the number of its groups and the numbers of the named
ones. The whole match is group 0. -/
structure Expression where
  pattern : Pattern
  groups : Nat
  names : List (String × Nat)
  deriving Inhabited

end Schematron.Regex
