import Schematron.Toml.Value

/-!
# Writing TOML

A string is written in the style that needs the fewest escapes. It stands between plain quotes
unless it holds a double quote or a backslash; then it is written literally, between single
quotes, if that is possible. Three quotes are used for a string of several lines, and for a
literal one in which a single quote stands.
-/

namespace Schematron.Toml.Writer

/-! ## Strings -/

/-- A control character that has no place in a literal string. -/
def isControl (c : Char) : Bool := c.toNat < 0x20 && c != '\t' && c != '\n' || c == '\x7f'

/-- The text holds so many single quotes one after the other that a literal string would end, or
ends in one. -/
def closesLiteral (cs : List Char) : Bool :=
  cs.getLast? == some '\'' ||
    (cs.splitBy (· == ·)).any fun run => run.head? == some '\'' && 3 ≤ run.length

/-- A string is written without escapes. -/
def isLiteral (cs : List Char) : Bool :=
  cs.any (fun c => c == '"' || c == '\\') && !cs.any isControl && !closesLiteral cs

/-- Four hexadecimal digits. -/
def hexDigits (n : Nat) : List Char :=
  let ds := (Nat.toDigits 16 n).map Char.toUpper
  List.replicate (4 - ds.length) '0' ++ ds

/-- A character as it stands in a string with escapes; a line feed stays in one of several
lines. -/
def escapeChar (multiline : Bool) (c : Char) : List Char :=
  match c with
  | '\x08' => ['\\', 'b']
  | '\t' => ['\\', 't']
  | '\n' => if multiline then ['\n'] else ['\\', 'n']
  | '\x0c' => ['\\', 'f']
  | '\r' => ['\\', 'r']
  | '"' => ['\\', '"']
  | '\\' => ['\\', '\\']
  | _ => if isControl c then '\\' :: 'u' :: hexDigits c.toNat else [c]

/-- A string as it is written. -/
def string (text : String) : String :=
  let cs := text.toList
  let multiline := cs.contains '\n'
  if isLiteral cs then
    if multiline then "'''\n" ++ text ++ "'''"
    else if cs.contains '\'' then "'''" ++ text ++ "'''"
    else "'" ++ text ++ "'"
  else
    let body := String.ofList (cs.flatMap (escapeChar multiline))
    if multiline then "\"\"\"\n" ++ body ++ "\"\"\"" else "\"" ++ body ++ "\""

/-! ## Documents -/

/-- A value that a setting can have. -/
inductive Scalar where
  | string (text : String)
  | integer (n : Int)
  | boolean (b : Bool)
  deriving DecidableEq, Repr

/-- A value as it is written. -/
def scalar : Scalar → String
  | .string text => string text
  | .integer n => toString n
  | .boolean b => if b then "true" else "false"

/-- A table with its header; keys without a value are left out. -/
def table (name : String) (entries : List (String × Option Scalar)) : String :=
  "[" ++ name ++ "]\n" ++ String.join (entries.filterMap fun (key, value) =>
    value.map fun value => key ++ " = " ++ scalar value ++ "\n")

end Schematron.Toml.Writer
