import Schematron.XPath.Evaluation
import Schematron.XPath.Parser

/-!
# Compiled expressions

An expression together with the text it was compiled from.
-/

namespace Schematron.XPath

open Xml

/-- A compiled expression. -/
structure Query where
  source : String
  expr : Expr
  deriving Inhabited

namespace Query

variable [Regex.Engine]

/-- Compiles an expression that refers to no other names than those given. -/
def compile (names : StaticContext) (source : String) : Except Fault Query := do
  .ok ⟨source, ← Expr.parse names source⟩

/-- Compiles a pattern: a relative path in it selects from everywhere in a document. -/
def compilePattern (names : StaticContext) (source : String) : Except Fault Query := do
  .ok ⟨source, (← Expr.parse names source).anchor⟩

def evaluate (query : Query) (context : Context) : Except EvalFault Value :=
  query.expr.eval context

def evaluateBool (query : Query) (context : Context) : Except EvalFault Bool := do
  .ok (← query.evaluate context).toBool

def evaluateText (query : Query) (context : Context) : Except EvalFault String := do
  .ok ((← query.evaluate context).toText context.doc)

/-- The nodes that an expression selects from the document node. -/
def selectFromRoot (query : Query) (doc : Document) (bindings : List (String × Value)) :
    Except EvalFault (List NodeId) := do
  let v ← query.evaluate { doc, node := Document.rootNode, bindings }
  v.toNodes (.selection query.source)

end Query

end Schematron.XPath
