import Schematron.Text.Blank
import Schematron.Text.Case
import Schematron.Text.Search
import Schematron.XPath.Matching
import Schematron.XPath.Value

/-!
# The functions

What each function makes of its arguments. An argument that has no value makes a call fail; of two
such arguments the one that the function asks for first decides. Where an argument is left out,
the context node stands for it.
-/

namespace Schematron.XPath

open Xml

/-- What an expression is evaluated in: a node with its position among as many as `size` nodes,
the node that `current()` means, and the variables, the innermost first. -/
structure Context where
  doc : Document
  node : NodeId
  position : Nat := 1
  size : Nat := 1
  current : NodeId := node
  bindings : List (String × Value) := []

/-- The arguments of a call, each with its value or fault. -/
abbrev Arguments := List (Except EvalFault Value)

namespace Arguments

/-- The argument at an index as a string. -/
def text (arguments : Arguments) (context : Context) (i : Nat) : Except EvalFault String :=
  match arguments[i]? with
  | some argument => do .ok ((← argument).toText context.doc)
  | none => .ok (context.doc.stringValue context.node)

/-- The argument at an index as characters. -/
def chars (arguments : Arguments) (context : Context) (i : Nat) :
    Except EvalFault (List Char) := do
  .ok (← arguments.text context i).toList

/-- The argument at an index as a number. -/
def number (arguments : Arguments) (context : Context) (i : Nat) : Except EvalFault Float :=
  match arguments[i]? with
  | some argument => do .ok ((← argument).toNumber context.doc)
  | none => .ok (Number.parse (context.doc.stringValue context.node))

/-- The argument at an index as a node-set. -/
def nodes (arguments : Arguments) (context : Context) (function : Function) (i : Nat) :
    Except EvalFault (List NodeId) :=
  match arguments[i]? with
  | some argument => do (← argument).toNodes (.call function)
  | none => .ok [context.node]

/-- The argument at an index as a string, empty if it is left out. -/
def textOrEmpty (arguments : Arguments) (context : Context) (i : Nat) :
    Except EvalFault String :=
  if i < arguments.length then arguments.text context i else .ok ""

/-- The argument at an index; an argument that is left out is the context node. -/
def value (arguments : Arguments) (context : Context) (i : Nat) : Except EvalFault Value :=
  arguments[i]?.getD (.ok (.nodes [context.node]))

end Arguments

/-! ## Strings -/

/-- The characters at the positions that are not before `start` and before `start + length`, all
three rounded, where the first position is 1. -/
def substring (cs : List Char) (start : Float) (length : Option Float) : List Char :=
  let first := Number.round start
  let stop := length.elim Number.infinity fun length => first + Number.round length
  (cs.zipIdx 1).filterMap fun (c, i) =>
    let p := Float.ofNat i
    if first ≤ p && p < stop then some c else none

/-- The characters with those that stand in `source` replaced by the characters at the same place
of `target`; those without one are dropped. -/
def translate (cs source target : List Char) : List Char :=
  cs.filterMap fun c =>
    match source.findIdx? (· == c) with
    | some i => target[i]?
    | none => some c

/-! ## Numbers -/

/-- The numbers that nodes mean. -/
def numbersOf (doc : Document) (ids : List NodeId) : List Float :=
  ids.map fun id => Number.parse (doc.stringValue id)

/-- The sum from negative zero on, which is the sum of no numbers. -/
def sumOf (xs : List Float) : Float := xs.foldl (· + ·) (-0.0)

/-- The greatest number, NaN left out. -/
def maxOf (xs : List Float) : Float :=
  xs.foldl (fun m x => if m < x then x else m) (-Number.infinity)

/-- The least number, NaN left out. -/
def minOf (xs : List Float) : Float :=
  xs.foldl (fun m x => if x < m then x else m) Number.infinity

/-! ## Calls -/

variable [Regex.Engine]

/-- The regular expression that a call gives. -/
def regexOf (pattern flags : String) : Except EvalFault Regex.Matcher :=
  match compileRegex pattern flags with
  | .ok matcher => .ok matcher
  | .error cause => .error (.regex pattern cause)

namespace Function

/-- What a function of names asks of one. -/
def nameText (name : Name) : Function → String
  | localName => name.localPart
  | .name => name.written
  | _ => name.uri.getD ""

/-- The value of a call. -/
def apply (function : Function) (arguments : Arguments) (context : Context) :
    Except EvalFault Value := do
  let doc := context.doc
  let text := arguments.text context
  let chars := arguments.chars context
  let number := arguments.number context
  let nodes := arguments.nodes context function
  match function with
  | last => .ok (.number (Float.ofNat context.size))
  | position => .ok (.number (Float.ofNat context.position))
  | count => .ok (.number (Float.ofNat (← nodes 0).length))
  | localName | name | namespaceUri =>
    let name? := (← nodes 0).head?.bind doc.name?
    .ok (.string (name?.elim "" (nameText · function)))
  | string => .ok (.string (← text 0))
  | concat => .ok (.string (String.join (← (List.range arguments.length).mapM text)))
  | startsWith =>
    let s ← chars 0
    .ok (.boolean ((← chars 1).isPrefixOf s))
  | endsWith =>
    let s ← chars 0
    .ok (.boolean ((← chars 1).isSuffixOf s))
  | contains =>
    let s ← chars 0
    .ok (.boolean (Text.cutAround? (← chars 1) s).isSome)
  | substringBefore =>
    let s ← chars 0
    let cut := Text.cutAround? (← chars 1) s
    .ok (.string (cut.elim "" fun cut => String.ofList cut.1))
  | substringAfter =>
    let s ← chars 0
    let cut := Text.cutAround? (← chars 1) s
    .ok (.string (cut.elim "" fun cut => String.ofList cut.2))
  | substring =>
    let s ← chars 0
    let start ← number 1
    let length ← if 2 < arguments.length then (number 2).map some else .ok none
    .ok (.string (String.ofList (XPath.substring s start length)))
  | stringLength => .ok (.number (Float.ofNat (← chars 0).length))
  | normalizeSpace => .ok (.string (Text.normalize (← text 0)))
  | translate =>
    let s ← chars 0
    let source ← chars 1
    let target ← chars 2
    .ok (.string (String.ofList (XPath.translate s source target)))
  | upperCase => .ok (.string (Text.upper (← text 0)))
  | lowerCase => .ok (.string (Text.lower (← text 0)))
  | boolean => .ok (.boolean (← arguments.value context 0).toBool)
  | not => .ok (.boolean (!(← arguments.value context 0).toBool))
  | .true => .ok (.boolean .true)
  | .false => .ok (.boolean .false)
  | .number => .ok (.number (← number 0))
  | sum => .ok (.number (sumOf (numbersOf doc (← nodes 0))))
  | floor => .ok (.number (← number 0).floor)
  | ceiling => .ok (.number (← number 0).ceil)
  | round => .ok (.number (Number.round (← number 0)))
  | .exists =>
    match ← arguments.value context 0 with
    | .nodes ids => .ok (.boolean (!ids.isEmpty))
    | _ => .ok (.boolean .true)
  | empty =>
    match ← arguments.value context 0 with
    | .nodes ids => .ok (.boolean ids.isEmpty)
    | _ => .ok (.boolean .false)
  | .matches =>
    let s ← chars 0
    let flags ← arguments.textOrEmpty context 2
    let matcher ← regexOf (← text 1) flags
    .ok (.boolean (matcher.isMatch s))
  | replace =>
    let s ← chars 0
    let flags ← arguments.textOrEmpty context 3
    let matcher ← regexOf (← text 1) flags
    .ok (.string (String.ofList (matcher.replaceAll s (← chars 2))))
  | stringJoin =>
    let separator ← arguments.textOrEmpty context 1
    match ← arguments.value context 0 with
    | .nodes ids => .ok (.string (String.intercalate separator (ids.map doc.stringValue)))
    | v => .ok (.string (v.toText doc))
  | max | min | avg =>
    let xs := numbersOf doc (← nodes 0)
    if xs.isEmpty then .ok (.number Number.nan)
    else
      .ok (.number
        (match function with
        | max => maxOf xs
        | min => minOf xs
        | _ => sumOf xs / Float.ofNat xs.length))
  | current => .ok (.nodes [context.current])

end Function

end Schematron.XPath
