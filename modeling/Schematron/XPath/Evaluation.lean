import Schematron.XPath.Axis
import Schematron.XPath.Library

/-!
# Evaluation

The value of an expression in a context, by recursion on the expression. Operands are evaluated
from left to right and the first fault decides; a disjunction or conjunction whose left operand
settles it does not evaluate the right one.
-/

namespace Schematron.XPath

open Xml

variable [Regex.Engine]

/-- The value of the innermost variable of a name. -/
def Context.lookup (context : Context) (name : String) : Except EvalFault Value :=
  match context.bindings.lookup name with
  | some v => .ok v
  | none => .error (.undefinedVariable name)

/-- The context at one of several nodes. -/
def Context.at (context : Context) (node : NodeId) (position size : Nat) : Context :=
  { context with node, position, size }

/-- A predicate keeps the node at a position: a number has to be the position, and any other value
has to be true. -/
def keeps (position : Nat) : Value → Bool
  | .number x => x == Float.ofNat position
  | v => v.toBool

/-- The elements for which a test with a fault of its own holds, up to the first fault. -/
def keepWith {α : Type} (test : α → Except EvalFault Bool) (xs : List α) :
    Except EvalFault (List α) := do
  let kept ← xs.foldlM (fun kept x => do .ok (if ← test x then x :: kept else kept)) []
  .ok kept.reverse

mutual

/-- The value of an expression. -/
def Expr.eval (context : Context) : Expr → Except EvalFault Value
  | .binary operator left right =>
    match operator with
    | .or => do
      let a ← left.eval context
      if a.toBool then .ok (.boolean true)
      else
        let b ← right.eval context
        .ok (.boolean b.toBool)
    | .and => do
      let a ← left.eval context
      if a.toBool then
        let b ← right.eval context
        .ok (.boolean b.toBool)
      else .ok (.boolean false)
    | .compare comparison => do
      let a ← left.eval context
      let b ← right.eval context
      .ok (.boolean (comparison.holds context.doc a b))
    | .arithmetic operation => do
      let a ← left.eval context
      let b ← right.eval context
      .ok (.number (operation.apply (a.toNumber context.doc) (b.toNumber context.doc)))
    | .union => do
      let a ← left.eval context
      let xs ← a.toNodes .union
      let b ← right.eval context
      let ys ← b.toNodes .union
      .ok (.nodes (documentOrder (xs ++ ys)))
  | .negate operand => do
    let a ← operand.eval context
    .ok (.number (-a.toNumber context.doc))
  | .literal value => .ok (.string value)
  | .number value => .ok (.number value)
  | .variableRef name => context.lookup name
  | .call function arguments => function.apply (evalAll context arguments) context
  | .filter operand predicates => do
    let a ← operand.eval context
    let ids ← a.toNodes .predicate
    .ok (.nodes (← select context predicates ids))
  | .path start steps => do
    let ids ← start.eval context
    .ok (.nodes (← walkSteps context steps ids))

/-- The values of arguments. -/
def evalAll (context : Context) : List Expr → Arguments
  | [] => []
  | e :: rest => e.eval context :: evalAll context rest

/-- The nodes at which a path starts. -/
def PathStart.eval (context : Context) : PathStart → Except EvalFault (List NodeId)
  | .root => .ok [Document.rootNode]
  | .context => .ok [context.node]
  | .nodes operand => do
    let a ← operand.eval context
    a.toNodes .path

/-- The nodes that the predicates keep, one predicate after the other. -/
def select (context : Context) : List Expr → List NodeId → Except EvalFault (List NodeId)
  | [], ids => .ok ids
  | predicate :: rest, ids => do
    let size := ids.length
    let kept ← keepWith (fun (id, position) => do
      let v ← predicate.eval (context.at id position size)
      .ok (keeps position v)) (ids.zipIdx 1)
    select context rest (kept.map (·.1))

/-- The nodes that a step leads to from a node. -/
def Step.eval (context : Context) : Step → NodeId → Except EvalFault (List NodeId)
  | .mk axis test predicates, id =>
    select context predicates ((axis.nodes context.doc id).filter (test.accepts context.doc axis ·))

/-- The nodes that steps lead to from some nodes. -/
def walkSteps (context : Context) : List Step → List NodeId → Except EvalFault (List NodeId)
  | [], ids => .ok ids
  | step :: rest, ids => do
    let found ← ids.mapM (step.eval context)
    walkSteps context rest (documentOrder found.flatten)

end

end Schematron.XPath
