import Schematron.Text.Blank
import Schematron.XPath.Expression
import Schematron.XPath.Lexer
import Schematron.XPath.Matching
import Schematron.Xml.Name

/-!
# Reading expressions

Tokens are read by recursive descent. Binary operators bind on six levels, from `or` to the
multiplications; a minus sign binds tighter, and the union of node-sets tighter still. All
operators group to the left. The names an expression uses are checked as they are met: prefixes
and variables against the names that the expression may refer to, functions against the library.

Each reader answers what it has read with the tokens that are left. The readers call each other to
a depth that the number of tokens bounds, and `depthBound` is the fuel that always lasts.
-/

namespace Schematron.XPath

/-- The names an expression may refer to. The namespace of a prefix that stands there twice is
the first one. -/
structure StaticContext where
  namespaces : List (String × String) := []
  variableNames : List String := []
  deriving DecidableEq, Repr, Inhabited

namespace StaticContext

def withNamespace (names : StaticContext) (pre uri : String) : StaticContext :=
  { names with namespaces := (pre, uri) :: names.namespaces }

def withVariable (names : StaticContext) (name : String) : StaticContext :=
  { names with variableNames := name :: names.variableNames }

/-- The namespace of a prefix. -/
def namespaceOf (names : StaticContext) (pre : String) : Except Fault String :=
  if pre == "xml" then .ok Xml.xmlNamespace
  else
    match names.namespaces.lookup pre with
    | some uri => .ok uri
    | none => .error (.unboundPrefix pre)

end StaticContext

namespace Parser

/-- The text that is read and the names it may refer to. -/
structure Setting where
  source : String
  names : StaticContext

def Setting.fail {α : Type} (setting : Setting) (cause : ParseFault) : Except Fault α :=
  .error (.malformed setting.source cause)

/-- What a reader answers that is out of fuel. -/
def Setting.giveUp {α : Type} (setting : Setting) (ts : List Token) : Except Fault α :=
  setting.fail (.nodeTestExpected ts.head?)

/-- Reads a token that must stand here. -/
def expect (setting : Setting) (wanted : Token) (ts : List Token) : Except Fault (List Token) :=
  match ts with
  | t :: rest => if t = wanted then .ok rest else setting.fail (.expected wanted (some t))
  | [] => setting.fail (.expected wanted none)

/-! ## Node tests -/

/-- The test of a name: `local`, `p:local`, `p:*` or `*:local`. -/
def nameTest (setting : Setting) (name : String) : Except Fault NodeTest :=
  match name.toList with
  | '*' :: ':' :: localPart => .ok (.anyNamespace (String.ofList localPart))
  | cs =>
    match Text.cutAt? (· == ':') cs with
    | some (pre, localPart) => do
      let uri ← setting.names.namespaceOf (String.ofList pre)
      .ok (if localPart == ['*'] then .inNamespace uri
        else .name (some uri) (String.ofList localPart))
    | none => .ok (.name none name)

/-- The tests that are written as calls. -/
def typeTest? (name : String) : Option NodeTest :=
  match name with
  | "node" => some .node
  | "text" => some .text
  | "comment" => some .comment
  | _ => none

/-- Reads a node test. -/
def nodeTest (setting : Setting) (ts : List Token) : Except Fault (NodeTest × List Token) :=
  match ts with
  | .star :: rest => .ok (.any, rest)
  | .name name :: .openParen :: rest =>
    match typeTest? name with
    | some test => do .ok (test, ← expect setting .closeParen rest)
    | none => setting.fail (.unsupportedNodeTest name)
  | .name name :: rest => do .ok (← nameTest setting name, rest)
  | _ => setting.fail (.nodeTestExpected ts.head?)

/-- Reads an axis; without one a step goes to the children. -/
def stepAxis (setting : Setting) (ts : List Token) : Except Fault (Axis × List Token) :=
  match ts with
  | .atSign :: rest => .ok (.attribute, rest)
  | .name name :: .doubleColon :: rest =>
    match Axis.ofName? name with
    | some axis => .ok (axis, rest)
    | none => setting.fail (.unknownAxis name)
  | _ => .ok (.child, ts)

/-! ## Calls -/

variable [Regex.Engine]

/-- The text of a literal. -/
def literal? : Expr → Option String
  | .literal value => some value
  | _ => none

/-- Checks a call: the number of its arguments, and a regular expression that is a literal. -/
def checkCall (function : Function) (arguments : List Expr) : Except Fault Unit :=
  if !function.arity.accepts arguments.length then .error (.arity function arguments.length)
  else
    let check (flags : Option Expr) : Except Fault Unit :=
      match arguments[1]?.bind literal? with
      | some pattern =>
        match compileRegex pattern ((flags.bind literal?).getD "") with
        | .ok _ => .ok ()
        | .error cause => .error (.regex pattern cause)
      | none => .ok ()
    match function with
    | .matches => check arguments[2]?
    | .replace => check arguments[3]?
    | _ => .ok ()

/-- The function of a name, which may have the prefix `fn`. -/
def functionOf (name : String) : Except Fault Function :=
  let bare := ((Text.after? "fn:" name.toList).map String.ofList).getD name
  match Function.ofName? bare with
  | some function => .ok function
  | none => .error (.unknownFunction name)

/-! ## Expressions -/

/-- The operator that a token is on a level. -/
def operator? (level : Nat) (t : Token) : Option BinaryOperator :=
  match level, t with
  | 0, .or => some .or
  | 1, .and => some .and
  | 2, .eq => some (.compare .eq)
  | 2, .notEq => some (.compare .notEq)
  | 3, .lt => some (.compare .lt)
  | 3, .le => some (.compare .le)
  | 3, .gt => some (.compare .gt)
  | 3, .ge => some (.compare .ge)
  | 4, .plus => some (.arithmetic .add)
  | 4, .minus => some (.arithmetic .sub)
  | 5, .multiply => some (.arithmetic .mul)
  | 5, .div => some (.arithmetic .div)
  | 5, .mod => some (.arithmetic .mod)
  | 7, .pipe => some .union
  | _, _ => none

/-- The level of the minus sign. -/
def unaryLevel : Nat := 6

/-- The level of paths, which have no operators. -/
def pathLevel : Nat := 8

/-- A primary expression begins here: a literal, a number, a variable, a parenthesis or a call. -/
def startsPrimary (ts : List Token) : Bool :=
  match ts with
  | .literal _ :: _ | .number _ :: _ | .variableName _ :: _ | .openParen :: _ => true
  | .name name :: .openParen :: _ =>
    !(["node", "text", "comment", "processing-instruction"].contains name)
  | _ => false

/-- A step begins here. -/
def startsStep (ts : List Token) : Bool :=
  match ts with
  | .name _ :: _ | .star :: _ | .atSign :: _ | .dot :: _ | .dotDot :: _ => true
  | _ => false

mutual

/-- Reads an expression whose operators are on a level or bind tighter. -/
def expression (setting : Setting) : (fuel level : Nat) → List Token →
    Except Fault (Expr × List Token)
  | 0, _, ts => setting.giveUp ts
  | fuel + 1, level, ts =>
    if level = pathLevel then path setting fuel ts
    else if level = unaryLevel then
      match ts with
      | .minus :: rest => do
        let (operand, rest) ← expression setting fuel level rest
        .ok (.negate operand, rest)
      | _ => expression setting fuel (level + 1) ts
    else do
      let (left, rest) ← expression setting fuel (level + 1) ts
      operands setting fuel level left rest

/-- Reads the operators of a level that follow an operand, with their right operands. -/
def operands (setting : Setting) : (fuel level : Nat) → Expr → List Token →
    Except Fault (Expr × List Token)
  | 0, _, _, ts => setting.giveUp ts
  | _ + 1, _, left, [] => .ok (left, [])
  | fuel + 1, level, left, t :: rest =>
    match operator? level t with
    | some operator => do
      let (right, rest) ← expression setting fuel (level + 1) rest
      operands setting fuel level (.binary operator left right) rest
    | none => .ok (left, t :: rest)

/-- Reads a path, or a primary expression with predicates and steps. -/
def path (setting : Setting) : (fuel : Nat) → List Token → Except Fault (Expr × List Token)
  | 0, ts => setting.giveUp ts
  | fuel + 1, ts =>
    if startsPrimary ts then do
      let (operand, rest) ← primary setting fuel ts
      let (predicates, rest) ← predicateList setting fuel rest
      let operand := if predicates.isEmpty then operand else .filter operand predicates
      match rest with
      | .slash :: rest =>
        let (steps, rest) ← relative setting fuel rest
        .ok (.path (.nodes operand) steps, rest)
      | .doubleSlash :: rest =>
        let (steps, rest) ← relative setting fuel rest
        .ok (.path (.nodes operand) (Step.anyDepth :: steps), rest)
      | _ => .ok (operand, rest)
    else
      match ts with
      | .slash :: rest =>
        if startsStep rest then do
          let (steps, rest) ← relative setting fuel rest
          .ok (.path .root steps, rest)
        else .ok (.path .root [], rest)
      | .doubleSlash :: rest => do
        let (steps, rest) ← relative setting fuel rest
        .ok (.path .root (Step.anyDepth :: steps), rest)
      | _ => do
        let (steps, rest) ← relative setting fuel ts
        .ok (.path .context steps, rest)

/-- Reads one or more steps with slashes between them. -/
def relative (setting : Setting) : (fuel : Nat) → List Token → Except Fault (List Step × List Token)
  | 0, ts => setting.giveUp ts
  | fuel + 1, ts => do
    let (first, rest) ← step setting fuel ts
    match rest with
    | .slash :: rest =>
      let (steps, rest) ← relative setting fuel rest
      .ok (first :: steps, rest)
    | .doubleSlash :: rest =>
      let (steps, rest) ← relative setting fuel rest
      .ok (first :: Step.anyDepth :: steps, rest)
    | _ => .ok ([first], rest)

/-- Reads a step. -/
def step (setting : Setting) : (fuel : Nat) → List Token → Except Fault (Step × List Token)
  | 0, ts => setting.giveUp ts
  | fuel + 1, ts =>
    match ts with
    | .dot :: rest => .ok (.mk .self .node [], rest)
    | .dotDot :: rest => .ok (.mk .parent .node [], rest)
    | _ => do
      let (axis, rest) ← stepAxis setting ts
      let (test, rest) ← nodeTest setting rest
      let (predicates, rest) ← predicateList setting fuel rest
      .ok (.mk axis test predicates, rest)

/-- Reads any number of predicates. -/
def predicateList (setting : Setting) : (fuel : Nat) → List Token →
    Except Fault (List Expr × List Token)
  | 0, ts => setting.giveUp ts
  | fuel + 1, ts =>
    match ts with
    | .openBracket :: rest => do
      let (predicate, rest) ← expression setting fuel 0 rest
      let rest ← expect setting .closeBracket rest
      let (predicates, rest) ← predicateList setting fuel rest
      .ok (predicate :: predicates, rest)
    | _ => .ok ([], ts)

/-- Reads a primary expression. -/
def primary (setting : Setting) : (fuel : Nat) → List Token → Except Fault (Expr × List Token)
  | 0, ts => setting.giveUp ts
  | fuel + 1, ts =>
    match ts with
    | .literal value :: rest => .ok (.literal value, rest)
    | .number value :: rest => .ok (.number value.toFloat, rest)
    | .variableName name :: rest =>
      if setting.names.variableNames.contains name then .ok (.variableRef name, rest)
      else .error (.undefinedVariable name)
    | .openParen :: rest => do
      let (inner, rest) ← expression setting fuel 0 rest
      .ok (inner, ← expect setting .closeParen rest)
    | .name name :: rest => do
      let function ← functionOf name
      let rest ← expect setting .openParen rest
      let (arguments, rest) ← argumentList setting fuel rest
      checkCall function arguments
      .ok (.call function arguments, rest)
    | _ => setting.fail (.nodeTestExpected ts.head?)

/-- Reads the arguments of a call up to its closing parenthesis. -/
def argumentList (setting : Setting) : (fuel : Nat) → List Token →
    Except Fault (List Expr × List Token)
  | 0, ts => setting.giveUp ts
  | fuel + 1, ts =>
    match ts with
    | .closeParen :: rest => .ok ([], rest)
    | _ => moreArguments setting fuel ts

/-- Reads one or more arguments up to the closing parenthesis of their call. -/
def moreArguments (setting : Setting) : (fuel : Nat) → List Token →
    Except Fault (List Expr × List Token)
  | 0, ts => setting.giveUp ts
  | fuel + 1, ts => do
    let (first, rest) ← expression setting fuel 0 ts
    match rest with
    | .closeParen :: rest => .ok ([first], rest)
    | _ =>
      let rest ← expect setting .comma rest
      let (more, rest) ← moreArguments setting fuel rest
      .ok (first :: more, rest)

end

/-- The depth of calls that reading never exceeds: between two tokens the readers call each other
fewer than sixteen times. -/
def depthBound (ts : List Token) : Nat := 16 * (ts.length + 1)

end Parser

/-- Reads an expression. -/
def Expr.parse [Regex.Engine] (names : StaticContext) (source : String) : Except Fault Expr :=
  let setting : Parser.Setting := ⟨source, names⟩
  match Lexer.tokens source.toList with
  | .error cause => setting.fail cause
  | .ok [] => setting.fail .empty
  | .ok ts => do
    let (e, rest) ← Parser.expression setting (Parser.depthBound ts) 0 ts
    match rest with
    | [] => .ok e
    | t :: _ => setting.fail (.unexpected t)

end Schematron.XPath
