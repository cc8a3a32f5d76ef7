import Schematron.Text.Digits
import Schematron.Xml.Markup

/-!
# References and escapes

A reference is an ampersand, a name or a number, and a semicolon, and stands for one character.
Five names have a meaning. Writing escapes exactly the characters that these names stand for.
-/

namespace Schematron.Xml.Reference

/-! ## Escaping -/

/-- The characters that are written as references, with the names that stand for them. -/
def named : List (Char × String) :=
  [('<', "lt"), ('>', "gt"), ('&', "amp"), ('\'', "apos"), ('"', "quot")]

/-- A character as it is written in text and in attribute values. -/
def escapeChar (c : Char) : List Char :=
  match named.lookup c with
  | some name => '&' :: name.toList ++ [';']
  | none => [c]

/-- A text as it is written. -/
def escape (s : String) : String := String.ofList (s.toList.flatMap escapeChar)

/-! ## Numbers -/

/-- The bound that numbers of references stay below. -/
def numberBound : Nat := Nat.pow 2 32

/-- Reads digits from the left. A sign or a character that is no digit is a fault, and so is a
number beyond 32 bits; of two faults the earlier one in the text is reported. -/
def digits (base : Nat) (n : Nat) : List Char → Except ReferenceFault Nat
  | [] => .ok n
  | c :: rest =>
    match Text.digit? base c with
    | none => .error .invalidDigit
    | some d =>
      if n * base + d < numberBound then digits base (n * base + d) rest
      else .error .numberTooLarge

/-- Reads an unsigned number. -/
def number (base : Nat) (cs : List Char) : Except ReferenceFault Nat :=
  match cs with
  | [] => .error .emptyNumber
  | '+' :: _ | '-' :: _ => .error .numberSign
  | _ => digits base 0 cs

/-- The character of a code point. -/
def ofCode (n : Nat) : Except ReferenceFault Char :=
  if n = 0 then .error .zeroCharacter
  else if n.isValidChar then .ok (Char.ofNat n)
  else .error (.invalidCodepoint n)

/-- The character that a reference of this name, which starts at a byte offset, stands for. -/
def resolve (start : Nat) (name : List Char) : Except ReferenceFault Char :=
  match name with
  | '#' :: 'x' :: hex => number 16 hex >>= ofCode
  | '#' :: decimal => number 10 decimal >>= ofCode
  | _ =>
    match named.find? (·.2.toList == name) with
    | some (c, _) => .ok c
    | none =>
      .error (.unknownEntity start (start + Markup.byteLength name) (String.ofList name))

/-! ## Unescaping -/

/-- The state of replacing references: the offset of the next character, the characters so far,
last first, and the reference that is open, if one is: its offset and its name, last first. -/
structure Replacing where
  offset : Nat := 0
  done : List Char := []
  opened : Option (Nat × List Char) := none

/-- Reads one more character of a text of `total` bytes. -/
def Replacing.step (total : Nat) (r : Replacing) (c : Char) : Except ReferenceFault Replacing :=
  let next := r.offset + c.utf8Size
  match r.opened with
  | none =>
    if c == '&' then .ok { r with offset := next, opened := some (r.offset, []) }
    else .ok { r with offset := next, done := c :: r.done }
  | some (start, name) =>
    if c == ';' then do
      let meant ← resolve (start + 1) name.reverse
      .ok { offset := next, done := meant :: r.done }
    else if c == '&' then .error (.unterminated start total)
    else .ok { r with offset := next, opened := some (start, c :: name) }

/-- The text with every reference replaced by what it stands for. -/
def unescape (cs : List Char) : Except ReferenceFault (List Char) := do
  let total := Markup.byteLength cs
  let r ← cs.foldlM (Replacing.step total) {}
  match r.opened with
  | some (start, _) => .error (.unterminated start total)
  | none => .ok r.done.reverse

end Schematron.Xml.Reference
