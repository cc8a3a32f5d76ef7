import Schematron.Proofs.XPath.Checked
import Schematron.Proofs.XPath.Lexing

/-!
# Printing expressions

An expression is written with every step in full and a blank between two tokens. Parentheses stand
only where the tokens between them would otherwise be read as part of something else:

* around an operand that binds less tightly than its operator asks for, which on the right of an
  operator is one level more than on the left (`Expr.standsAt`);
* around the document node as an operand, which would take a star or a name after it for a step;
* around what predicates or steps follow, unless it is a primary expression.

What an expression does not say is left to a `Style`: which prefix stands for a namespace and which
whole number for a double.
-/

namespace Schematron.XPath

open XPath.Parser

/-! ## Operators -/

namespace BinaryOperator

def token : BinaryOperator → Token
  | or => .or
  | and => .and
  | compare .eq => .eq
  | compare .notEq => .notEq
  | compare .lt => .lt
  | compare .le => .le
  | compare .gt => .gt
  | compare .ge => .ge
  | arithmetic .add => .plus
  | arithmetic .sub => .minus
  | arithmetic .mul => .multiply
  | arithmetic .div => .div
  | arithmetic .mod => .mod
  | union => .pipe

/-- The level on which an operator binds. -/
def level : BinaryOperator → Nat
  | or => 0
  | and => 1
  | compare .eq | compare .notEq => 2
  | compare _ => 3
  | arithmetic .add | arithmetic .sub => 4
  | arithmetic _ => 5
  | union => 7

end BinaryOperator

/-- A token is one operator at most, and that on one level. -/
theorem operator?_eq_some {level : Nat} {t : Token} {operator : BinaryOperator} :
    operator? level t = some operator ↔ operator.token = t ∧ operator.level = level := by
  constructor
  · intro h
    unfold operator? at h
    split at h <;> cases h <;> exact ⟨rfl, rfl⟩
  · rintro ⟨rfl, rfl⟩
    rcases operator with _ | _ | comparison | operation | _
    · rfl
    · rfl
    · cases comparison <;> rfl
    · cases operation <;> rfl
    · rfl

/-- Operators bind less tightly than paths, and none like a minus sign. -/
theorem BinaryOperator.level_lt (operator : BinaryOperator) :
    operator.level < pathLevel ∧ operator.level ≠ unaryLevel := by
  rcases operator with _ | _ | (_ | _ | _ | _ | _ | _) | (_ | _ | _ | _ | _) | _ <;> decide

theorem BinaryOperator.token_injective {a b : BinaryOperator} (h : a.token = b.token) : a = b := by
  rcases a with _ | _ | (_ | _ | _ | _ | _ | _) | (_ | _ | _ | _ | _) | _ <;>
    rcases b with _ | _ | (_ | _ | _ | _ | _ | _) | (_ | _ | _ | _ | _) | _ <;>
      first | rfl | cases h

namespace Axis

/-- The name of an axis. -/
def toName : Axis → String
  | child => "child"
  | descendant => "descendant"
  | descendantOrSelf => "descendant-or-self"
  | self => "self"
  | parent => "parent"
  | ancestor => "ancestor"
  | ancestorOrSelf => "ancestor-or-self"
  | .attribute => "attribute"
  | followingSibling => "following-sibling"
  | precedingSibling => "preceding-sibling"
  | following => "following"
  | preceding => "preceding"

theorem ofName?_toName (axis : Axis) : ofName? axis.toName = some axis := by
  cases axis <;> rfl

end Axis

/-! ## Where parentheses stand -/

namespace Expr

/-- How tightly an expression binds: the level of its operator, or that of paths. -/
def level : Expr → Nat
  | binary operator _ _ => operator.level
  | negate _ => unaryLevel
  | _ => pathLevel

/-- The document node. -/
def isBareRoot : Expr → Bool
  | path .root [] => true
  | _ => false

/-- The expression stands as it is where an operator asks for an operand of the level. -/
def standsAt (level : Nat) (e : Expr) : Bool := level ≤ e.level && !e.isBareRoot

def isPrimary : Expr → Bool
  | literal _ | number _ | variableRef _ | call _ _ => true
  | _ => false

def isFilter : Expr → Bool
  | filter _ _ => true
  | _ => false

theorem level_le (e : Expr) : e.level ≤ pathLevel := by
  cases e with
  | binary operator => exact operator.level_lt.1.le
  | negate => exact Nat.le_of_lt (by decide : unaryLevel < pathLevel)
  | _ => exact Nat.le_refl _

theorem le_of_standsAt {level : Nat} {e : Expr} (h : e.standsAt level = true) :
    level ≤ e.level := by
  rw [standsAt, Bool.and_eq_true, decide_eq_true_eq] at h
  exact h.1

theorem level_of_head {e : Expr} (h : e.isPrimary = true ∨ e.isFilter = true) :
    e.level = pathLevel := by
  cases e <;> first | rfl | simp [isPrimary, isFilter] at h

theorem not_isBareRoot_of_head {e : Expr} (h : e.isPrimary = true ∨ e.isFilter = true) :
    e.isBareRoot = false := by
  cases e <;> first | rfl | simp [isPrimary, isFilter] at h

theorem not_isBareRoot_of_standsAt {level : Nat} {e : Expr} (h : e.standsAt level = true) :
    e.isBareRoot = false := by
  rw [standsAt, Bool.and_eq_true, Bool.not_eq_true'] at h
  exact h.2

end Expr

/-- Tokens as they stand, or in parentheses. -/
def enclosed (bare : Bool) (ts : List Token) : List Token :=
  if bare then ts else .openParen :: (ts ++ [.closeParen])

/-! ## Tokens -/

/-- How an expression is written as far as it leaves that open: with the prefixes of a context, with
a whole number for each double, and with or without parentheses around a filter that steps
follow. -/
structure Style where
  names : StaticContext
  numeral : Float → Nat
  bareFilters : Bool

namespace Style

/-- A prefix of the namespace. -/
def prefixOf (style : Style) (uri : String) : String :=
  (("xml" :: style.names.namespaces.map (·.1)).find? fun pre =>
    Lexer.IsName pre && (style.names.namespaceOf pre).toOption == some uri).getD ""

/-- The expression stands as it is where steps follow it. -/
def standsAsHead (style : Style) (e : Expr) : Bool :=
  e.isPrimary || style.bareFilters && e.isFilter

theorem head_of_standsAsHead {style : Style} {e : Expr} (h : style.standsAsHead e = true) :
    e.isPrimary = true ∨ e.isFilter = true := by
  rw [standsAsHead, Bool.or_eq_true, Bool.and_eq_true] at h
  exact h.imp_right And.right

def testTokens (style : Style) : NodeTest → List Token
  | .any => [.star]
  | .name none localPart => [.name localPart]
  | .name (some uri) localPart => [.name (style.prefixOf uri ++ ":" ++ localPart)]
  | .inNamespace uri => [.name (style.prefixOf uri ++ ":" ++ "*")]
  | .anyNamespace localPart => [.name ("*:" ++ localPart)]
  | .node => [.name "node", .openParen, .closeParen]
  | .text => [.name "text", .openParen, .closeParen]
  | .comment => [.name "comment", .openParen, .closeParen]

mutual

/-- The tokens of an expression. -/
def tokens (style : Style) : Expr → List Token
  | .binary operator left right =>
    enclosed (left.standsAt operator.level) (style.tokens left) ++ operator.token ::
      enclosed (right.standsAt (operator.level + 1)) (style.tokens right)
  | .negate operand => .minus :: enclosed (operand.standsAt unaryLevel) (style.tokens operand)
  | .literal value => [.literal value]
  | .number value => [.number { digits := style.numeral value }]
  | .variableRef name => [.variableName name]
  | .call function arguments =>
    .name function.toName :: .openParen :: (style.argumentTokens arguments ++ [.closeParen])
  | .filter operand predicates =>
    enclosed operand.isPrimary (style.tokens operand) ++ style.predicateTokens predicates
  | .path .root steps => .slash :: style.relativeTokens steps
  | .path .context steps => style.relativeTokens steps
  | .path (.nodes operand) steps =>
    enclosed (style.standsAsHead operand) (style.tokens operand) ++
      .slash :: style.relativeTokens steps

/-- The tokens of arguments, with commas between them. -/
def argumentTokens (style : Style) : List Expr → List Token
  | [] => []
  | e :: rest =>
    style.tokens e ++ if rest.isEmpty then [] else .comma :: style.argumentTokens rest

/-- The tokens of predicates, each in brackets. -/
def predicateTokens (style : Style) : List Expr → List Token
  | [] => []
  | e :: rest => .openBracket :: (style.tokens e ++ .closeBracket :: style.predicateTokens rest)

/-- The tokens of a step: its axis, its test and its predicates. -/
def stepTokens (style : Style) : Step → List Token
  | .mk axis test predicates =>
    .name axis.toName :: .doubleColon :: (style.testTokens test ++ style.predicateTokens predicates)

/-- The tokens of steps, with slashes between them. -/
def relativeTokens (style : Style) : List Step → List Token
  | [] => []
  | step :: rest =>
    style.stepTokens step ++ if rest.isEmpty then [] else .slash :: style.relativeTokens rest

end

end Style

/-! ## Texts -/

namespace Token

/-- How a token is written. A literal stands between apostrophes if it holds none; of a number only
the digits are written. -/
def spelling : Token → String
  | slash => "/"
  | doubleSlash => "//"
  | pipe => "|"
  | plus => "+"
  | minus => "-"
  | star | multiply => "*"
  | eq => "="
  | notEq => "!="
  | lt => "<"
  | le => "<="
  | gt => ">"
  | ge => ">="
  | openParen => "("
  | closeParen => ")"
  | openBracket => "["
  | closeBracket => "]"
  | comma => ","
  | atSign => "@"
  | dot => "."
  | dotDot => ".."
  | doubleColon => "::"
  | and => "and"
  | or => "or"
  | div => "div"
  | mod => "mod"
  | literal value =>
    let quote := String.singleton (if '\'' ∈ value.toList then '"' else '\'')
    quote ++ value ++ quote
  | number value => toString value.digits
  | name value => value
  | variableName value => "$" ++ value

end Token

/-- The text of an expression. -/
def Style.print (style : Style) (e : Expr) : String :=
  String.intercalate " " ((style.tokens e).map Token.spelling)

/-- Parentheses stand around the right one of two differences but not around the left one, and
around the document node as an operand but not in brackets. -/
example :
    Style.print ⟨{}, fun _ => 1, false⟩
      (.binary (.arithmetic .sub)
        (.binary (.arithmetic .sub) (.number 1) (.negate (.filter (.number 1) [.path .root []])))
        (.binary (.arithmetic .sub) (.number 1)
          (.binary (.arithmetic .mul) (.path .root []) (.number 1)))) =
      "1 - - 1 [ / ] - ( 1 - ( / ) * 1 )" := by
  decide

end Schematron.XPath
