/-!
# TOML values

The values that a TOML text can hold. The keys of a table come in the order of their definition,
each once.
-/

namespace Schematron.Toml

/-- A value of a TOML document. Dates and times are kept as their text. -/
inductive Value where
  | string (text : String)
  | integer (n : Int)
  | float (x : Float)
  | boolean (b : Bool)
  | datetime (text : String)
  | array (items : List Value)
  | table (entries : List (String × Value))
  deriving Inhabited

namespace Value

/-- The value of a key of a table. -/
def get? (v : Value) (key : String) : Option Value :=
  match v with
  | table entries => entries.lookup key
  | _ => none

def string? : Value → Option String
  | string text => some text
  | _ => none

def boolean? : Value → Option Bool
  | boolean b => some b
  | _ => none

/-- An integer that is not negative. -/
def natural? : Value → Option Nat
  | integer (.ofNat n) => some n
  | _ => none

/-- An array of strings. -/
def strings? : Value → Option (List String)
  | array items => items.mapM string?
  | _ => none

/-- The values of the fields of a record, in the order of `keys`. A record is written as a table,
in which other keys do not count, or as an array of its leading fields. -/
def fields? (keys : List String) : Value → Option (List (Option Value))
  | table entries => some (keys.map (entries.lookup ·))
  | array items =>
    if items.length ≤ keys.length then
      some (items.map some ++ List.replicate (keys.length - items.length) none)
    else none
  | datetime _ => some (keys.map fun _ => none)
  | _ => none

end Value

end Schematron.Toml
