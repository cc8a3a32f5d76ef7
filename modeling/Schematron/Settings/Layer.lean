import Schematron.Numeric.Decimal
import Schematron.Settings.Coercion
import Schematron.Text.Blank

/-!
# Layers of settings

Settings come in layers, of which a later one overrides an earlier one key by key. Keys are kept
in lower case. At the top of a layer a key can be a path of keys with points between them. Of two
tables under one key the entries are merged; anything else takes the place of what was there.
-/

namespace Schematron.Settings

open Toml (Value)

/-- The settings of some layers, by keys in lower case. -/
abbrev Table := List (String × Value)

namespace Table

/-- Puts a value under a key, in the place of the one that has it. -/
def put (table : Table) (key : String) (v : Value) : Table :=
  if (table.lookup key).isSome then
    table.map fun (k, old) => if k == key then (k, v) else (k, old)
  else table ++ [(key, v)]

/-- The table under a key; an empty one if there is none. -/
def inner (table : Table) (key : String) : Table :=
  match table.lookup key with
  | some (.table entries) => entries
  | _ => []

mutual

/-- Sets a key, merging a table into the one that has the key. -/
def set (table : Table) (key : String) : Value → Table
  | .table entries =>
    put table (Text.lower key) (.table (setAll (inner table (Text.lower key)) entries))
  | .datetime text => put table (Text.lower key) (.string text)
  | v => put table (Text.lower key) v

/-- Sets keys one after the other. -/
def setAll (table : Table) : List (String × Value) → Table
  | [] => table
  | (key, v) :: rest => setAll (set table key v) rest

end

/-- Sets the value at a path of keys; what is no table on the way is replaced by one. -/
def setPath (v : Value) : List String → Table → Table
  | [], table => table
  | [key], table => set table key v
  | key :: path, table =>
    put table (Text.lower key) (.table (setPath v path (inner table (Text.lower key))))

/-- A character of a key in a path. -/
def isPathChar (c : Char) : Bool := c.isAlphanum || c == ' ' || c == '_' || c == '-'

/-- The path that a key at the top of a layer means. A key that is no path means itself. -/
def pathOf (key : String) : List String :=
  let parts := Text.splitAt (· == '.') key.toList
  if parts.all fun part => !part.isEmpty && part.all isPathChar then parts.map String.ofList
  else [key]

/-- Puts a layer above those there are. -/
def override (table layer : Table) : Table :=
  layer.foldl (fun table (key, v) => setPath v (pathOf key) table) table

end Table

/-! ## Variables of the environment -/

/-- The beginning of the names of variables that are settings, in lower case. -/
def variableStart : String := "schematron__"

/-- A text with every pair of underscores replaced by a point. -/
def pointsForPairs : List Char → List Char
  | '_' :: '_' :: cs => '.' :: pointsForPairs cs
  | c :: cs => c :: pointsForPairs cs
  | [] => []

/-- What a text in the environment means: a switch, a number or a text. -/
def parseVariable (text : String) : Value :=
  let word := Text.lower text
  if word == "true" then .boolean true
  else if word == "false" then .boolean false
  else
    match integerText? text, Numeric.readFloat? text.toList with
    | some n, _ => .integer n
    | none, some x => .float x
    | none, none => .string text

/-- The layer of the variables of an environment. -/
def environmentLayer (environment : List (String × String)) : Table :=
  environment.filterMap fun (name, text) =>
    (Text.after? variableStart (Text.lower name).toList).map fun key =>
      (String.ofList (pointsForPairs key), parseVariable text)

end Schematron.Settings
