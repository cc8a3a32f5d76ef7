import Schematron.Text.Quoted
import Schematron.XPath.Number

/-!
# Tokens of expressions

The tokens, and how they are shown in messages.
-/

namespace Schematron.XPath

open Numeric

/-- A token of an expression. A star is a name test or a multiplication, and some names are
operators, by what stands before them. -/
inductive Token where
  | slash | doubleSlash | pipe | plus | minus | star | multiply
  | eq | notEq | lt | le | gt | ge
  | openParen | closeParen | openBracket | closeBracket
  | comma | atSign | dot | dotDot | doubleColon
  | and | or | div | mod
  | literal (value : String)
  | number (value : Decimal)
  | name (value : String)
  | variableName (value : String)
  deriving DecidableEq, Repr, Inhabited

namespace Token

/-- The token can end an operand, so that an operator may follow it. -/
def endsOperand : Token → Bool
  | name _ | star | literal _ | number _ | variableName _ | closeParen | closeBracket | dot
  | dotDot => true
  | _ => false

/-- The token as messages show it. -/
def display : Token → String
  | slash => "Slash"
  | doubleSlash => "DoubleSlash"
  | pipe => "Pipe"
  | plus => "Plus"
  | minus => "Minus"
  | star => "Star"
  | multiply => "Multiply"
  | eq => "Eq"
  | notEq => "NotEq"
  | lt => "Lt"
  | le => "Le"
  | gt => "Gt"
  | ge => "Ge"
  | openParen => "LParen"
  | closeParen => "RParen"
  | openBracket => "LBracket"
  | closeBracket => "RBracket"
  | comma => "Comma"
  | atSign => "At"
  | dot => "Dot"
  | dotDot => "DotDot"
  | doubleColon => "ColonColon"
  | and => "And"
  | or => "Or"
  | div => "Div"
  | mod => "Mod"
  | literal value => "Literal(" ++ Text.quote value ++ ")"
  | number value => "Number(" ++ Number.display value.toFloat ++ ")"
  | name value => "Name(" ++ Text.quote value ++ ")"
  | variableName value => "Variable(" ++ Text.quote value ++ ")"

/-- What stands at a place of an expression, as messages show it; nothing stands at its end. -/
def displayFound : Option Token → String
  | some token => "Some(" ++ token.display ++ ")"
  | none => "None"

end Token

end Schematron.XPath
