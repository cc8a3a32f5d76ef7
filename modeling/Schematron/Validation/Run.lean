import Schematron.Schema.Program
import Schematron.Xml.Location
import Schematron.Xml.Reader

/-!
# Runs

A program is run on a document. The variables that all patterns share are evaluated first, at the
document node. Then each pattern looks at the nodes in document order, and on each fires the first
of its rules whose context selects the node: the variables of the rule are evaluated, and then its
assertions. One stack holds all variables: a rule puts its own on top, and at its end the stack is
cut back to the height it had before.
-/

namespace Schematron.Validation

open Schema
open Xml (Document NodeId)
open XPath (Context EvalFault Query Value)

/-- Why a document cannot be checked: it is not well-formed, or an expression has no value. -/
inductive RunFault where
  | malformed (cause : Xml.Fault)
  | evaluation (source : String) (cause : EvalFault)
  deriving DecidableEq, Repr

namespace RunFault

def message : RunFault → String
  | malformed cause => "Document is not well-formed: " ++ cause.message
  | evaluation source cause => "Evaluation of '" ++ source ++ "' failed: " ++ cause.message

end RunFault

/-- An assertion that fired at a node, with the texts of its message and diagnostics. -/
structure Firing where
  assertion : Assertion
  location : String
  message : String
  diagnostics : List (String × String)
  deriving Inhabited

/-- What happens in a run. -/
inductive Event where
  | activePattern (pattern : Pattern)
  | firedRule (rule : Rule)
  | firing (firing : Firing)
  deriving Inhabited

/-- The record of a run or of a part of it: what happened, and the messages about parts of texts
that select nothing. -/
structure Record where
  events : List Event := []
  notes : List String := []
  deriving Inhabited

/-- The variables that have values, the innermost first. -/
abbrev Bindings := List (String × Value)

/-! ## Progress -/

/-- How far a run has come: the stack of variables, and its record so far. -/
structure Progress where
  bindings : Bindings := []
  events : Array Event := #[]
  notes : Array String := #[]

namespace Progress

/-- Puts a variable on the stack. -/
def bind (p : Progress) (name : String) (value : Value) : Progress :=
  { p with bindings := (name, value) :: p.bindings }

/-- Takes the variables off the stack that were put there when it was higher than `mark`. -/
def unwind (p : Progress) (mark : Nat) : Progress :=
  { p with bindings := p.bindings.drop (p.bindings.length - mark) }

def happen (p : Progress) (event : Event) : Progress :=
  { p with events := p.events.push event }

def note (p : Progress) (text : String) : Progress := { p with notes := p.notes.push text }

def record (p : Progress) : Record := ⟨p.events.toList, p.notes.toList⟩

end Progress

/-- A part of a run: it takes the run further until a fault ends it. -/
abbrev Running := StateT Progress (Except RunFault)

/-- The context at a node with the variables that have values now. -/
def contextAt (doc : Document) (node : NodeId) : Running Context := do
  return { doc, node, bindings := (← get).bindings }

/-! ## Expressions -/

/-- The value of an expression of a program, or the fault with the expression. -/
def withSource {α : Type} (query : Query) : Except EvalFault α → Except RunFault α
  | .ok x => .ok x
  | .error cause => .error (.evaluation query.source cause)

variable [Regex.Engine]

/-- The value of a variable. -/
def Variable.evaluate (context : Context) (v : Variable) : Except RunFault Value :=
  match v.value with
  | .expression query => withSource query (query.evaluate context)
  | .literal text => .ok (.string text)

/-- Evaluates a variable at a node and binds it, so that those after it know it. -/
def bindVariable (doc : Document) (node : NodeId) (v : Variable) : Running Unit := do
  let value ← Variable.evaluate (← contextAt doc node) v
  modify (·.bind v.name value)

/-! ## Messages -/

/-- The name of the first of several nodes. -/
def firstName? (doc : Document) (ids : List NodeId) : Option String :=
  (ids.head?.bind doc.name?).map (·.written)

/-- The text of a part of a message. A path that selects nothing with a name leaves a note. -/
def renderPart (context : Context) : MessagePart → Running String
  | .text value => return value
  | .valueOf query => withSource query (query.evaluateText context)
  | .nodeName none => return (firstName? context.doc [context.node]).getD ""
  | .nodeName (some path) => do
    let ids ← withSource path do
      (← path.evaluate context).toNodes (.namedPath path.source)
    match firstName? context.doc ids with
    | some name => return name
    | none =>
      modify (·.note ("<name path=\"" ++ path.source ++ "\"> selected no named node"))
      return ""

/-- The text of a message. -/
def render (context : Context) (message : MessageTemplate) : Running String :=
  return String.join (← message.mapM (renderPart context))

/-! ## Assertions and rules -/

/-- The text of a diagnostic with its id. -/
def diagnose (context : Context) (diagnostic : DiagnosticTemplate) : Running (String × String) :=
  return (diagnostic.id, ← render context diagnostic.message)

/-- Records that an assertion fires. -/
def fire (context : Context) (assertion : Assertion) : Running Unit := do
  let location := context.doc.location context.node
  let message ← render context assertion.message
  let diagnostics ← assertion.diagnostics.mapM (diagnose context)
  modify (·.happen (.firing { assertion, location, message, diagnostics }))

/-- Checks an assertion at a node. -/
def checkAssertion (doc : Document) (node : NodeId) (assertion : Assertion) : Running Unit := do
  let context ← contextAt doc node
  let holds ← withSource assertion.test (assertion.test.evaluateBool context)
  if assertion.kind.fires holds then fire context assertion

/-- Fires a rule on a node. What it binds is taken off the stack at its end. -/
def fireRule (doc : Document) (rule : Rule) (node : NodeId) : Running Unit := do
  modify (·.happen (.firedRule rule))
  let mark := (← get).bindings.length
  rule.lets.forM (bindVariable doc node)
  rule.assertions.forM (checkAssertion doc node)
  modify (·.unwind mark)

/-! ## Patterns and programs -/

/-- The rules of a pattern with the nodes that their contexts select. -/
def selectNodes (doc : Document) (bindings : Bindings) (pattern : Pattern) :
    Except RunFault (List (Rule × List NodeId)) :=
  pattern.rules.mapM fun rule => do
    .ok (rule, ← withSource rule.context (rule.context.selectFromRoot doc bindings))

/-- For each node the first of the rules that selects it. -/
def firstRules (size : Nat) (selected : List (Rule × List NodeId)) : Array (Option Rule) :=
  selected.foldr
    (fun (rule, ids) table =>
      ids.foldl (fun table id => table.setIfInBounds id (some rule)) table)
    (Array.replicate size none)

/-- The rules that fire, each with its node, in document order. -/
def firedRules (size : Nat) (selected : List (Rule × List NodeId)) : List (Rule × NodeId) :=
  (firstRules size selected).toList.zipIdx.filterMap fun (rule, id) =>
    rule.map fun rule => (rule, id)

/-- Runs a pattern. -/
def runPattern (doc : Document) (pattern : Pattern) : Running Unit := do
  modify (·.happen (.activePattern pattern))
  let selected ← selectNodes doc (← get).bindings pattern
  (firedRules doc.size selected).forM fun (rule, node) => fireRule doc rule node

/-- Runs a program: binds the variables that all patterns share, then runs the patterns. -/
def runProgram (program : Program) (doc : Document) : Running Unit := do
  program.globals.forM (bindVariable doc Document.rootNode)
  program.patterns.forM (runPattern doc)

/-- The record of the run of a program on a document. -/
def run (program : Program) (doc : Document) : Except RunFault Record := do
  let (_, progress) ← (runProgram program doc).run {}
  .ok progress.record

/-- Runs a program on the bytes of a document. -/
def runBytes (program : Program) (bytes : ByteArray) : Except RunFault Record :=
  match Document.parseBytes bytes with
  | .ok doc => run program doc
  | .error cause => .error (.malformed cause)

end Schematron.Validation
