import Schematron.XPath.Expression
import Schematron.XPath.Fault
import Schematron.Xml.Traversal

/-!
# Values

An expression has a node-set, a string, a number or a boolean for its value. Each value can be
read as a string, a number or a boolean; only a node-set can be read as one. Comparisons hold of a
node-set if they hold of one of its nodes.
-/

namespace Schematron.XPath

open Xml

/-- The value of an expression. The nodes of a node-set are in document order, each once. -/
inductive Value where
  | nodes (ids : List NodeId)
  | string (text : String)
  | number (x : Float)
  | boolean (b : Bool)
  deriving Inhabited

namespace Value

def type : Value → ValueType
  | nodes _ => .nodeSet
  | string _ => .string
  | number _ => .number
  | boolean _ => .boolean

/-- The text of a truth value. -/
def booleanText (b : Bool) : String := if b then "true" else "false"

/-- The value as a boolean: whether a node-set or string is not empty, and whether a number is
neither zero nor NaN. -/
def toBool : Value → Bool
  | nodes ids => !ids.isEmpty
  | string text => !text.isEmpty
  | number x => x != 0 && !x.isNaN
  | boolean b => b

/-- The value as a string: of a node-set the string value of its first node. -/
def toText (doc : Document) : Value → String
  | nodes [] => ""
  | nodes (first :: _) => doc.stringValue first
  | string text => text
  | number x => Number.format x
  | boolean b => booleanText b

/-- The value as a number. -/
def toNumber (doc : Document) : Value → Float
  | number x => x
  | boolean b => if b then 1 else 0
  | v => Number.parse (v.toText doc)

/-- The nodes of a node-set. -/
def toNodes (use : NodeSetUse) : Value → Except EvalFault (List NodeId)
  | nodes ids => .ok ids
  | v => .error (.notNodes use v.type)

end Value

/-- Nodes in document order, each once. -/
def documentOrder (ids : List NodeId) : List NodeId := (ids.mergeSort (· ≤ ·)).eraseReps

/-! ## Comparison -/

namespace Comparison

/-- The comparison holds of two numbers. -/
def ofNumbers (a b : Float) : Comparison → Bool
  | eq => a == b
  | notEq => a != b
  | lt => a < b
  | le => a ≤ b
  | gt => b < a
  | ge => b ≤ a

/-- Two values that are no node-sets are equal as booleans if one of them is a boolean, else as
numbers if one is a number, else as strings. -/
def equal (doc : Document) (a b : Value) : Bool :=
  match a, b with
  | .boolean _, _ | _, .boolean _ => a.toBool == b.toBool
  | .number _, _ | _, .number _ => a.toNumber doc == b.toNumber doc
  | _, _ => a.toText doc == b.toText doc

/-- The comparison holds of two values that are no node-sets. Order is that of numbers. -/
def ofAtoms (doc : Document) (comparison : Comparison) (a b : Value) : Bool :=
  match comparison with
  | eq => equal doc a b
  | notEq => !equal doc a b
  | _ => ofNumbers (a.toNumber doc) (b.toNumber doc) comparison

/-- A node as it is compared with a value that is no node-set. -/
def nodeBeside (doc : Document) (id : NodeId) : Value → Value
  | .number _ => .number (Number.parse (doc.stringValue id))
  | .boolean _ => .boolean true
  | _ => .string (doc.stringValue id)

/-- The comparison holds of two values. -/
def holds (doc : Document) (comparison : Comparison) (a b : Value) : Bool :=
  match a, b with
  | .nodes xs, .nodes ys =>
    let texts := ys.map doc.stringValue
    xs.any fun x =>
      let text := doc.stringValue x
      texts.any fun other => ofAtoms doc comparison (.string text) (.string other)
  | .nodes xs, _ => xs.any fun x => ofAtoms doc comparison (nodeBeside doc x b) b
  | _, .nodes ys => ys.any fun y => ofAtoms doc comparison a (nodeBeside doc y a)
  | _, _ => ofAtoms doc comparison a b

end Comparison

/-- The result of an arithmetic operation. -/
def Arithmetic.apply (a b : Float) : Arithmetic → Float
  | add => a + b
  | sub => a - b
  | mul => a * b
  | div => a / b
  | mod => Numeric.remainder a b

end Schematron.XPath
