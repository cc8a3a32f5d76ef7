import Schematron.Xml.Markup

/-!
# Attributes of a tag

A tag holds a name and, after white space, attributes: a key, an equals sign and a quoted value.
White space may stand on both sides of the equals sign, and attributes may touch. A machine reads
the characters after the name one at a time.
-/

namespace Schematron.Xml.Attributes

/-- An attribute as it is written: its key, the offset of the key in the tag, and its value with
the references in it. -/
structure Written where
  position : Nat
  key : List Char
  value : List Char
  deriving DecidableEq, Repr

/-- What is being read. Characters are kept last first. -/
inductive Reading where
  | between
  | key (position : Nat) (seen : List Char)
  | afterKey (position : Nat) (key : List Char)
  | beforeValue (position : Nat) (key : List Char)
  | value (position : Nat) (key : List Char) (quote : Char) (seen : List Char)
  | failed (cause : AttributeFault)
  deriving DecidableEq, Repr

/-- The offset of the next character, the attributes so far, last first, and what is being
read. -/
structure Machine where
  offset : Nat
  attributes : List Written := []
  reading : Reading := .between
  deriving DecidableEq, Repr

namespace Machine

/-- Reads the equals sign after a key, which no earlier attribute may have. -/
def equals (m : Machine) (position : Nat) (key : List Char) : Machine :=
  match m.attributes.find? (·.key == key) with
  | some earlier => { m with reading := .failed (.duplicated position earlier.position) }
  | none => { m with reading := .beforeValue position key }

/-- What the machine does on a character, the offset apart. -/
def read (m : Machine) (c : Char) : Machine :=
  match m.reading with
  | .failed _ => m
  | .between => if Markup.isSpace c then m else { m with reading := .key m.offset [c] }
  | .key position seen =>
    if c == '=' then m.equals position seen.reverse
    else if Markup.isSpace c then { m with reading := .afterKey position seen.reverse }
    else { m with reading := .key position (c :: seen) }
  | .afterKey position key =>
    if c == '=' then m.equals position key
    else if Markup.isSpace c then m
    else { m with reading := .failed (.equalsMissing m.offset) }
  | .beforeValue position key =>
    if Markup.isSpace c then m
    else if Markup.isQuote c then { m with reading := .value position key c [] }
    else { m with reading := .failed (.valueUnquoted m.offset) }
  | .value position key quote seen =>
    if c == quote then
      { m with attributes := ⟨position, key, seen.reverse⟩ :: m.attributes, reading := .between }
    else { m with reading := .value position key quote (c :: seen) }

/-- Reads a character. -/
def step (m : Machine) (c : Char) : Machine :=
  { m.read c with offset := m.offset + c.utf8Size }

/-- What the end of the tag makes of what is being read. -/
def finish (m : Machine) : List Written × Option AttributeFault :=
  let fault : Option AttributeFault :=
    match m.reading with
    | .between => none
    | .key .. | .afterKey .. => some (.equalsMissing m.offset)
    | .beforeValue .. => some (.valueMissing m.offset)
    | .value _ _ quote _ => some (.quoteMissing m.offset quote)
    | .failed cause => some cause
  (m.attributes.reverse, fault)

end Machine

/-- The name at the beginning of a tag. -/
def nameOf (content : List Char) : List Char := content.takeWhile (!Markup.isSpace ·)

/-- The attributes of a tag in order, up to the first fault. -/
def read (content : List Char) : List Written × Option AttributeFault :=
  let start : Machine := { offset := Markup.byteLength (nameOf content) }
  ((content.dropWhile (!Markup.isSpace ·)).foldl Machine.step start).finish

end Schematron.Xml.Attributes
