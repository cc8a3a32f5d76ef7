import Schematron.Schema.Channel
import Schematron.XPath.Query

/-!
# Compiled schemas

What compilation makes of a schema: patterns of rules of assertions, in which every expression is
compiled. A program is never changed, and holds nothing of a document.
-/

namespace Schematron.Schema

open XPath (Query)

/-! ## Variables -/

/-- What a variable stands for: the value of an expression, or a text. -/
inductive LetValue where
  | expression (query : Query)
  | literal (text : String)
  deriving Inhabited

/-- A variable with what it stands for. -/
structure Variable where
  name : String
  value : LetValue
  deriving Inhabited

/-! ## Messages -/

/-- A part of a message: text, the value of an expression, or the name of the context node or of
the first node of a path. -/
inductive MessagePart where
  | text (value : String)
  | valueOf (query : Query)
  | nodeName (path : Option Query)
  deriving Inhabited

/-- A message with expressions in it. -/
abbrev MessageTemplate := List MessagePart

namespace MessageTemplate

/-- The parts with texts that stand side by side made one. -/
def ofParts : List MessagePart → MessageTemplate
  | [] => []
  | .text value :: rest =>
    match ofParts rest with
    | .text more :: rest => .text (value ++ more) :: rest
    | rest => .text value :: rest
  | part :: rest => part :: ofParts rest

/-- The message is nothing but blanks. -/
def isBlank (message : MessageTemplate) : Bool :=
  message.all fun
    | .text value => Text.allBlank value
    | _ => false

end MessageTemplate

/-! ## Assertions -/

/-- An assertion fires when an `assert` does not hold, or when a `report` does. -/
inductive AssertionKind where
  | assert | report
  deriving DecidableEq, Repr, Inhabited

namespace AssertionKind

/-- The name of the element that an assertion is written as. -/
def schemaElement : AssertionKind → String
  | assert => "assert"
  | report => "report"

/-- An assertion fires with this outcome of its test. -/
def fires : AssertionKind → Bool → Bool
  | assert, holds => !holds
  | report, holds => holds

end AssertionKind

/-- A diagnostic that an assertion refers to, as it reads in the scope of the assertion. -/
structure DiagnosticTemplate where
  id : String
  message : MessageTemplate
  deriving Inhabited

/-- An assertion of a rule. -/
structure Assertion where
  kind : AssertionKind
  id : Option String
  test : Query
  channel : Channel
  role : Option String
  message : MessageTemplate
  diagnostics : List DiagnosticTemplate
  deriving Inhabited

/-- A rule: the nodes that it is for, its variables and its assertions. -/
structure Rule where
  id : Option String
  context : Query
  role : Option String
  flag : Option String
  lets : List Variable
  assertions : List Assertion
  deriving Inhabited

/-- A pattern. Of its rules the first one that a node matches fires on it. -/
structure Pattern where
  id : Option String
  title : Option String
  rules : List Rule
  deriving Inhabited

/-- A compiled schema: the path and the digest of its source, the phase that it was compiled for
unless all patterns are active, the variables that all patterns share, and the active patterns. -/
structure Program where
  resource : String
  digest : String
  title : Option String
  version : Option String
  queryBinding : Option String
  phase : Option String
  namespaces : List (String × String)
  globals : List Variable
  patterns : List Pattern
  deriving Inhabited

namespace Program

def rules (program : Program) : List Rule := program.patterns.flatMap (·.rules)

def assertions (program : Program) : List Assertion := program.rules.flatMap (·.assertions)

end Program

end Schematron.Schema
