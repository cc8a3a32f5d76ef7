/-!
# JSON texts

The values of a machine-readable report, written with one entry to a line and two spaces for each
level. The keys of an object are written in alphabetical order.
-/

namespace Schematron.Command

/-- A JSON value of the kinds that reports need. -/
inductive Json where
  | string (text : String)
  | natural (n : Nat)
  | boolean (b : Bool)
  | array (items : List Json)
  | object (entries : List (String × Json))
  deriving Inhabited

namespace Json

def strings (texts : List String) : Json := array (texts.map string)

/-- A character as it stands between quotes. -/
def escapeChar (c : Char) : List Char :=
  match c with
  | '"' => ['\\', '"']
  | '\\' => ['\\', '\\']
  | '\x08' => ['\\', 'b']
  | '\t' => ['\\', 't']
  | '\n' => ['\\', 'n']
  | '\x0c' => ['\\', 'f']
  | '\r' => ['\\', 'r']
  | _ =>
    if c.toNat < 0x20 then
      let ds := Nat.toDigits 16 c.toNat
      ['\\', 'u'] ++ List.replicate (4 - ds.length) '0' ++ ds
    else [c]

/-- A text in quotes. -/
def quote (text : String) : String :=
  String.ofList ('"' :: text.toList.flatMap escapeChar ++ ['"'])

/-- Parts between brackets, each on a line of its own. -/
def bracketed (opening closing indent : String) (parts : List String) : String :=
  if parts.isEmpty then opening ++ closing
  else
    opening ++ "\n" ++ String.intercalate ",\n" (parts.map (indent ++ "  " ++ ·)) ++ "\n" ++
      indent ++ closing

mutual

/-- Writes a value on lines that are indented. -/
def writeAt (indent : String) : Json → String
  | string text => quote text
  | natural n => toString n
  | boolean b => if b then "true" else "false"
  | array items => bracketed "[" "]" indent (writeItems (indent ++ "  ") items)
  | object entries =>
    bracketed "\x7b" "\x7d" indent
      (((writeEntries (indent ++ "  ") entries).mergeSort fun a b => decide (a.1 ≤ b.1)).map
        fun (key, value) => quote key ++ ": " ++ value)

/-- Writes the items of an array. -/
def writeItems (indent : String) : List Json → List String
  | [] => []
  | item :: rest => writeAt indent item :: writeItems indent rest

/-- Writes the values of the entries of an object. -/
def writeEntries (indent : String) : List (String × Json) → List (String × String)
  | [] => []
  | (key, value) :: rest => (key, writeAt indent value) :: writeEntries indent rest

end

/-- The text of a value. -/
def write (value : Json) : String := writeAt "" value

end Json

end Schematron.Command
