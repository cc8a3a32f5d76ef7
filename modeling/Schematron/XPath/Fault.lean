import Schematron.XPath.Function
import Schematron.XPath.Token

/-!
# Faults of expressions

Faults that are found when an expression is compiled, and those that only show when it is
evaluated: a value that is no node-set where one is needed, and a regular expression that was not
known before. A regular expression has no meaning if it has an unknown flag, and if the engine
rejects its pattern.
-/

namespace Schematron.XPath

/-- Why a regular expression has no meaning. -/
inductive RegexFault where
  | unknownFlag (flag : Char)
  | rejected (reason : String)
  deriving DecidableEq, Repr

/-- Why a text is no expression. Offsets count characters. -/
inductive ParseFault where
  | unexpectedChar (c : Char) (offset : Nat)
  | incomplete (c : Char) (offset : Nat)
  | unterminatedLiteral
  | variableNameMissing (offset : Nat)
  | operatorExpected (found : String)
  | empty
  | unexpected (found : Token)
  | expected (wanted : Token) (found : Option Token)
  | unknownAxis (name : String)
  | unsupportedNodeTest (name : String)
  | nodeTestExpected (found : Option Token)
  deriving DecidableEq, Repr

/-- Why an expression cannot be compiled. -/
inductive Fault where
  | malformed (source : String) (cause : ParseFault)
  | unknownFunction (name : String)
  | arity (function : Function) (found : Nat)
  | unboundPrefix (pre : String)
  | undefinedVariable (name : String)
  | regex (pattern : String) (cause : RegexFault)
  deriving DecidableEq, Repr

/-- What needs a node-set. -/
inductive NodeSetUse where
  | union
  | predicate
  | path
  | call (function : Function)
  | selection (source : String)
  | namedPath (source : String)
  deriving DecidableEq, Repr

/-- The types of values. -/
inductive ValueType where
  | nodeSet | string | number | boolean
  deriving DecidableEq, Repr

/-- Why an expression has no value. -/
inductive EvalFault where
  | notNodes (use : NodeSetUse) (found : ValueType)
  | regex (pattern : String) (cause : RegexFault)
  | undefinedVariable (name : String)
  deriving DecidableEq, Repr

/-! ## Messages -/

namespace RegexFault

def message : RegexFault → String
  | unknownFlag flag => s!"unknown flag '{flag}'"
  | rejected reason => reason

end RegexFault

/-- The message of a regular expression without meaning. -/
def regexMessage (pattern : String) (cause : RegexFault) : String :=
  s!"Invalid regular expression '{pattern}': {cause.message}"

namespace ParseFault

def message : ParseFault → String
  | unexpectedChar c offset => s!"unexpected character '{c}' at offset {offset}"
  | incomplete c offset => s!"unexpected '{c}' at offset {offset}"
  | unterminatedLiteral => "unterminated string literal"
  | variableNameMissing offset => s!"expected variable name at offset {offset}"
  | operatorExpected found => s!"expected an operator, found '{found}'"
  | empty => "empty expression"
  | unexpected found => s!"unexpected {found.display}"
  | expected wanted found =>
    "expected " ++ wanted.display ++ ", found " ++ Token.displayFound found
  | unknownAxis name => s!"unknown axis '{name}'"
  | unsupportedNodeTest name => s!"unsupported node type test {name}()"
  | nodeTestExpected found => "expected a node test, found " ++ Token.displayFound found

end ParseFault

namespace Fault

def message : Fault → String
  | malformed source cause => s!"Invalid expression '{source}': {cause.message}"
  | unknownFunction name => s!"Unknown function {name}()"
  | arity function found =>
    "Function " ++ function.toName ++ "() expects " ++ function.arity.display ++
      " argument(s), got " ++ toString found
  | unboundPrefix pre => s!"Undeclared namespace prefix '{pre}'"
  | undefinedVariable name => s!"Undefined variable ${name}"
  | regex pattern cause => regexMessage pattern cause

end Fault

namespace NodeSetUse

def display : NodeSetUse → String
  | union => "'|'"
  | predicate => "a predicate"
  | path => "a path"
  | call function => function.toName ++ "()"
  | selection source => s!"'{source}'"
  | namedPath source => s!"<name path=\"{source}\">"

end NodeSetUse

namespace ValueType

def display : ValueType → String
  | nodeSet => "node-set"
  | string => "string"
  | number => "number"
  | boolean => "boolean"

end ValueType

namespace EvalFault

def message : EvalFault → String
  | notNodes use found =>
    "Type error: " ++ use.display ++ " requires a node-set, got " ++ found.display
  | regex pattern cause => regexMessage pattern cause
  | undefinedVariable name => s!"Undefined variable ${name}"

end EvalFault

end Schematron.XPath
