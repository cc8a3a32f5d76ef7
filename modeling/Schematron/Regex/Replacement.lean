import Schematron.Regex.Search
import Schematron.Text.Digits

/-!
# Replacing matches

A replacement refers to groups by number or name after a dollar sign, in braces or not; two dollar
signs stand for one. A reference to a group that does not exist, or that took no part in the
match, stands for nothing, and a dollar sign before anything else for itself.
-/

namespace Schematron.Regex

/-- A part of a replacement. -/
inductive ReplacementPart where
  | literal (c : Char)
  | group (name : List Char)
  deriving DecidableEq, Repr

/-- A character of a reference without braces. -/
def isReferenceChar (c : Char) : Bool := c.isAlphanum || c == '_'

/-- Reads a replacement; `parts` are those so far, last first. -/
def readReplacement : (fuel : Nat) → (parts : List ReplacementPart) → List Char →
    List ReplacementPart
  | 0, parts, _ => parts.reverse
  | _ + 1, parts, [] => parts.reverse
  | fuel + 1, parts, '$' :: rest =>
    match rest with
    | '$' :: rest => readReplacement fuel (.literal '$' :: parts) rest
    | '\x7b' :: more =>
      match more.span (· != '\x7d') with
      | (name, _ :: rest) => readReplacement fuel (.group name :: parts) rest
      | (_, []) => readReplacement fuel (.literal '$' :: parts) rest
    | _ =>
      match rest.span isReferenceChar with
      | ([], rest) => readReplacement fuel (.literal '$' :: parts) rest
      | (name, rest) => readReplacement fuel (.group name :: parts) rest
  | fuel + 1, parts, c :: rest => readReplacement fuel (.literal c :: parts) rest

/-- The number of the group that a reference means. -/
def Program.groupNumber? (program : Program) (name : List Char) : Option Nat :=
  let digits :=
    match name with
    | '+' :: digits => digits
    | _ => name
  match if digits.all Char.isDigit then Text.digits? 10 digits else none with
  | some n => some n
  | none => program.names.lookup (String.ofList name)

/-- The characters from one place of a text to another. -/
def between (text : Array Char) (first stop : Nat) : List Char := (text.extract first stop).toList

/-- What a part of a replacement stands for in a match. -/
def ReplacementPart.expand (program : Program) (text : Array Char) (slots : Slots) :
    ReplacementPart → List Char
  | literal c => [c]
  | group name =>
    match (program.groupNumber? name).bind (Program.span? slots) with
    | some (first, stop) => between text first stop
    | none => []

/-- The text with all its matches replaced. -/
def Program.replaceAll (program : Program) (text replacement : List Char) : List Char :=
  let parts := readReplacement (replacement.length + 1) [] replacement
  let chars := text.toArray
  let step (state : Nat × List (List Char)) (slots : Slots) : Nat × List (List Char) :=
    match Program.span? slots 0 with
    | some (first, stop) =>
      (stop, parts.flatMap (·.expand program chars slots) :: between chars state.1 first :: state.2)
    | none => state
  let (last, pieces) := (program.allMatches text).foldl step (0, [])
  ((between chars last chars.size) :: pieces).reverse.flatten

end Schematron.Regex
