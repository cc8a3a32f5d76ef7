import Schematron.XPath.Function

/-!
# Expressions

The expressions that a text is read into. Prefixes are replaced by the namespaces they stand for,
and abbreviated steps are written out.
-/

namespace Schematron.XPath

inductive Comparison where
  | eq | notEq | lt | le | gt | ge
  deriving DecidableEq, Repr

inductive Arithmetic where
  | add | sub | mul | div | mod
  deriving DecidableEq, Repr

inductive BinaryOperator where
  | or | and
  | compare (comparison : Comparison)
  | arithmetic (operation : Arithmetic)
  | union
  deriving DecidableEq, Repr

/-- The directions in which a step goes. -/
inductive Axis where
  | child | descendant | descendantOrSelf | self | parent | ancestor | ancestorOrSelf
  | attribute | followingSibling | precedingSibling | following | preceding
  deriving DecidableEq, Repr

/-- What a step asks of a node. Tests of names ask for an attribute on the attribute axis, and for
an element on all others. -/
inductive NodeTest where
  | any
  | name (uri : Option String) (localPart : String)
  | inNamespace (uri : String)
  | anyNamespace (localPart : String)
  | node
  | text
  | comment
  deriving DecidableEq, Repr

mutual

/-- An expression. -/
inductive Expr where
  | binary (operator : BinaryOperator) (left right : Expr)
  | negate (operand : Expr)
  | literal (value : String)
  | number (value : Float)
  | variableRef (name : String)
  | call (function : Function) (arguments : List Expr)
  | filter (operand : Expr) (predicates : List Expr)
  | path (start : PathStart) (steps : List Step)

/-- Where a path starts: at the document node, at the context node, or at the nodes of an
expression. -/
inductive PathStart where
  | root
  | context
  | nodes (operand : Expr)

/-- A step of a path. -/
inductive Step where
  | mk (axis : Axis) (test : NodeTest) (predicates : List Expr)

end

instance : Inhabited Expr := ⟨.literal ""⟩

namespace Axis

/-- The axis of a name. -/
def ofName? (name : String) : Option Axis :=
  match name with
  | "child" => some child
  | "descendant" => some descendant
  | "descendant-or-self" => some descendantOrSelf
  | "self" => some self
  | "parent" => some parent
  | "ancestor" => some ancestor
  | "ancestor-or-self" => some ancestorOrSelf
  | "attribute" => some .attribute
  | "following-sibling" => some followingSibling
  | "preceding-sibling" => some precedingSibling
  | "following" => some following
  | "preceding" => some preceding
  | _ => none

end Axis

namespace Step

/-- The step that an empty place between two slashes stands for. -/
def anyDepth : Step := mk .descendantOrSelf .node []

end Step

namespace Expr

/-- The expression that selects from the document node what a relative path selects from any node
of the document. -/
def anchor : Expr → Expr
  | binary .union left right => binary .union left.anchor right.anchor
  | path .context steps => path .root (Step.anyDepth :: steps)
  | e => e

end Expr

end Schematron.XPath
