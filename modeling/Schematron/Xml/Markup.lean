import Schematron.Xml.Fault

/-!
# Markup

A text is cut into units: tags, comments, character data sections and the runs of text between
them. The cut is made by a machine that reads one character at a time, so that the units of a text
are those of a first part followed by what the machine makes of the rest. Document type
declarations, processing instructions and the XML declaration are read and dropped.

The machine is lenient: it asks of a unit no more than where it ends.
-/

namespace Schematron.Xml

/-- A unit of markup. Tags hold what stands between the angle brackets, without the slash. -/
inductive Markup where
  | text (raw : List Char)
  | cdata (content : List Char)
  | comment (content : List Char)
  | startTag (content : List Char)
  | emptyTag (content : List Char)
  | endTag (name : List Char)
  deriving DecidableEq, Repr

namespace Markup

/-- A unit with the byte offset of its first character. -/
structure Located where
  position : Nat
  unit : Markup
  deriving DecidableEq, Repr

/-- White space of markup: space, tab, carriage return and line feed. -/
def isSpace (c : Char) : Bool := c == ' ' || c == '\t' || c == '\r' || c == '\n'

def isQuote (c : Char) : Bool := c == '"' || c == '\''

/-- The number of bytes of some characters. -/
def byteLength (cs : List Char) : Nat := cs.foldl (fun n c => n + c.utf8Size) 0

/-! ## The machine -/

/-- What the machine is reading. A unit has the offset `start` of its `<`, a run of text that of
its first character. The characters seen since then (after the `<`) are kept last first. -/
inductive Reading where
  | text (start : Nat) (seen : List Char)
  | opened (start : Nat)
  | declaration (start : Nat)
  | comment (start : Nat) (seen : List Char)
  | cdata (start : Nat) (seen : List Char)
  | doctype (start depth : Nat) (seen : List Char)
  | instruction (start : Nat) (seen : List Char)
  | tag (start : Nat) (quote : Option Char) (seen : List Char)
  | failed (position : Nat) (cause : Malformation)
  deriving DecidableEq, Repr

/-- The machine: the offset of the next character, the units so far, last first, and the unit
that is being read. -/
structure Machine where
  offset : Nat := 0
  units : List Located := []
  reading : Reading := .text 0 []
  deriving DecidableEq, Repr

namespace Machine

def fail (m : Machine) (position : Nat) (cause : Malformation) : Machine :=
  { m with reading := .failed position cause }

/-- Ends a unit with the next character, which leaves nothing behind. -/
def skip (m : Machine) (c : Char) : Machine :=
  { m with reading := .text (m.offset + c.utf8Size) [] }

/-- Ends a unit with the next character and records it. -/
def emit (m : Machine) (c : Char) (position : Nat) (unit : Markup) : Machine :=
  { m.skip c with units := ⟨position, unit⟩ :: m.units }

/-- Records the text run that ends here, if it is not empty. -/
def emitText (m : Machine) (start : Nat) (seen : List Char) : List Located :=
  if seen.isEmpty then m.units else ⟨start, .text seen.reverse⟩ :: m.units

/-- An end tag without the white space after its name; a name of white space alone stays. -/
def endName (content : List Char) : List Char :=
  match content.reverse.dropWhile isSpace with
  | [] => content
  | name => name.reverse

/-- The tag of some content: an end tag begins with a slash, an empty tag ends with one. -/
def tagOf (content : List Char) : Markup :=
  match content with
  | '/' :: name => .endTag (endName name)
  | _ => if content.getLast? == some '/' then .emptyTag content.dropLast else .startTag content

/-- The content of a comment, of which everything from `!` to the last `--` was seen. -/
def comment? (seen : List Char) : Option (List Char) :=
  match seen.reverse with
  | '!' :: '-' :: '-' :: rest => some (rest.take (rest.length - 2))
  | _ => none

/-- The content of a character data section, of which everything from `!` to `]]` was seen. -/
def cdata? (seen : List Char) : Option (List Char) :=
  match seen.reverse with
  | '!' :: '[' :: 'C' :: 'D' :: 'A' :: 'T' :: 'A' :: '[' :: rest =>
    some (rest.take (rest.length - 2))
  | _ => none

/-- A document type declaration begins with the word in any case; what follows is its content. -/
def doctype? (seen : List Char) : Option (List Char) :=
  let cs := seen.reverse
  if (cs.take 8).map Char.toUpper == "!DOCTYPE".toList then some (cs.drop 8) else none

/-- Reads one more character of a tag. -/
def stepTag (m : Machine) (start : Nat) (quote : Option Char) (seen : List Char) (c : Char) :
    Machine :=
  match quote with
  | some q => { m with reading := .tag start (if c == q then none else quote) (c :: seen) }
  | none =>
    if c == '>' then m.emit c start (tagOf seen.reverse)
    else { m with reading := .tag start (if isQuote c then some c else none) (c :: seen) }

/-- Reads one more character of a comment, which ends at the first `-->` that leaves room for
both `--`. -/
def stepComment (m : Machine) (start : Nat) (seen : List Char) (c : Char) : Machine :=
  match c, seen with
  | '>', '-' :: '-' :: before =>
    if 3 ≤ before.length then
      match comment? seen with
      | some content => m.emit c start (.comment content)
      | none => m.fail start .unclosedComment
    else { m with reading := .comment start (c :: seen) }
  | _, _ => { m with reading := .comment start (c :: seen) }

/-- Reads one more character of a character data section, which ends at the first `]]>`. -/
def stepCData (m : Machine) (start : Nat) (seen : List Char) (c : Char) : Machine :=
  match c, seen with
  | '>', ']' :: ']' :: _ =>
    match cdata? seen with
    | some content => m.emit c start (.cdata content)
    | none => m.fail start .unclosedCData
  | _, _ => { m with reading := .cdata start (c :: seen) }

/-- Reads one more character of a document type declaration, which ends at the `>` that balances
its `<`. -/
def stepDoctype (m : Machine) (start depth : Nat) (seen : List Char) (c : Char) : Machine :=
  match c, depth with
  | '<', _ => { m with reading := .doctype start (depth + 1) (c :: seen) }
  | '>', depth + 1 => { m with reading := .doctype start depth (c :: seen) }
  | '>', 0 =>
    match doctype? seen with
    | some content =>
      if content.all isSpace then m.fail m.offset .unnamedDoctype else m.skip c
    | none => m.fail start .unclosedDoctype
  | _, _ => { m with reading := .doctype start depth (c :: seen) }

/-- Reads one more character of a processing instruction, which ends at the first `?>`. -/
def stepInstruction (m : Machine) (start : Nat) (seen : List Char) (c : Char) : Machine :=
  match c, seen with
  | '>', ['?'] => m.fail start .unclosedInstruction
  | '>', '?' :: _ => m.skip c
  | _, _ => { m with reading := .instruction start (c :: seen) }

/-- What the machine does on a character, the offset apart. -/
def read (m : Machine) (c : Char) : Machine :=
  match m.reading with
  | .failed .. => m
  | .text start seen =>
    if c == '<' then { m with units := m.emitText start seen, reading := .opened m.offset }
    else { m with reading := .text start (c :: seen) }
  | .opened start =>
    match c with
    | '!' => { m with reading := .declaration start }
    | '?' => { m with reading := .instruction start [c] }
    | _ => m.stepTag start none [] c
  | .declaration start =>
    match c with
    | '-' => { m with reading := .comment start [c, '!'] }
    | '[' => { m with reading := .cdata start [c, '!'] }
    | 'D' | 'd' => { m with reading := .doctype start 0 [c, '!'] }
    | _ => m.fail start .unknownMarkup
  | .comment start seen => m.stepComment start seen c
  | .cdata start seen => m.stepCData start seen c
  | .doctype start depth seen => m.stepDoctype start depth seen c
  | .instruction start seen => m.stepInstruction start seen c
  | .tag start quote seen => m.stepTag start quote seen c

/-- Reads a character. -/
def step (m : Machine) (c : Char) : Machine :=
  { m.read c with offset := m.offset + c.utf8Size }

/-- What the end of the text makes of the unit that is being read: the units, last first, and the
fault that ends them. -/
def finish (m : Machine) : List Located × Option (Nat × Malformation) :=
  match m.reading with
  | .failed position cause => (m.units, some (position, cause))
  | .text start seen => (m.emitText start seen, none)
  | .opened start | .tag start .. => (m.units, some (start, .unclosedTag))
  | .declaration start => (m.units, some (start, .unknownMarkup))
  | .comment start _ => (m.units, some (start, .unclosedComment))
  | .cdata start _ => (m.units, some (start, .unclosedCData))
  | .doctype start .. => (m.units, some (start, .unclosedDoctype))
  | .instruction start _ => (m.units, some (start, .unclosedInstruction))

end Machine

/-- The units of a text in order, up to the first fault. -/
def units (cs : List Char) : List Located × Option (Nat × Malformation) :=
  let (units, fault) := (cs.foldl Machine.step {}).finish
  (units.reverse, fault)

end Markup

end Schematron.Xml
