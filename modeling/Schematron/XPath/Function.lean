/-!
# The function library

The names of the functions and the numbers of arguments they accept.
-/

namespace Schematron.XPath

/-- A function of the library. -/
inductive Function where
  | last | position | count | localName | name | namespaceUri
  | string | concat | startsWith | endsWith | contains | substringBefore | substringAfter
  | substring | stringLength | normalizeSpace | translate | upperCase | lowerCase
  | boolean | not | true | false
  | number | sum | floor | ceiling | round
  | exists | empty | matches | replace | stringJoin | max | min | avg
  | current
  deriving DecidableEq, Repr, Inhabited

namespace Function

/-- The functions with their names. -/
def table : List (String × Function) :=
  [("last", last), ("position", position), ("count", count), ("local-name", localName),
   ("name", name), ("namespace-uri", namespaceUri), ("string", string), ("concat", concat),
   ("starts-with", startsWith), ("ends-with", endsWith), ("contains", contains),
   ("substring-before", substringBefore), ("substring-after", substringAfter),
   ("substring", substring), ("string-length", stringLength),
   ("normalize-space", normalizeSpace), ("translate", translate), ("upper-case", upperCase),
   ("lower-case", lowerCase), ("boolean", boolean), ("not", not), ("true", .true),
   ("false", .false), ("number", number), ("sum", sum), ("floor", floor),
   ("ceiling", ceiling), ("round", round), ("exists", .exists), ("empty", empty),
   ("matches", .matches), ("replace", replace), ("string-join", stringJoin), ("max", max),
   ("min", min), ("avg", avg), ("current", current)]

/-- The function of a name. -/
def ofName? (name : String) : Option Function := table.lookup name

/-- The name of a function. -/
def toName (f : Function) : String := ((table.find? (·.2 == f)).map (·.1)).getD ""

end Function

/-- How many arguments a function accepts; without `most` there is no bound. -/
structure Arity where
  least : Nat
  most : Option Nat
  deriving DecidableEq, Repr

namespace Arity

def accepts (arity : Arity) (count : Nat) : Bool :=
  arity.least ≤ count && arity.most.all (count ≤ ·)

/-- The accepted numbers as messages show them. -/
def display (arity : Arity) : String :=
  match arity.most with
  | some most =>
    if most = arity.least then toString arity.least else s!"{arity.least}-{most}"
  | none => s!"at least {arity.least}"

end Arity

namespace Function

/-- The numbers of arguments of a function. -/
def arity : Function → Arity
  | last | position | .true | .false | current => ⟨0, some 0⟩
  | localName | name | namespaceUri | string | stringLength | normalizeSpace | number =>
    ⟨0, some 1⟩
  | count | upperCase | lowerCase | boolean | not | sum | floor | ceiling | round | .exists
  | empty | max | min | avg => ⟨1, some 1⟩
  | startsWith | endsWith | contains | substringBefore | substringAfter => ⟨2, some 2⟩
  | substring => ⟨2, some 3⟩
  | translate => ⟨3, some 3⟩
  | .matches => ⟨2, some 3⟩
  | replace => ⟨3, some 4⟩
  | stringJoin => ⟨1, some 2⟩
  | concat => ⟨2, none⟩

end Function

end Schematron.XPath
