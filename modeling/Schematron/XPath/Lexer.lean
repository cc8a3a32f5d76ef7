import Schematron.XPath.Fault

/-!
# Cutting expressions into tokens

A token is cut off at the beginning of what is left of an expression. Whether a star multiplies
and whether a name is an operator depends on the token before it. Blanks between tokens have no
meaning.
-/

namespace Schematron.XPath.Lexer

open Unicode Numeric

/-! ## Names and numbers -/

def isNameStart (c : Char) : Bool := isAlphabetic c || c == '_'

def isNameChar (c : Char) : Bool :=
  isAlphanumeric c || c == '_' || c == '-' || c == '.' || c == '·'

/-- Cuts off a name without prefix; it is empty if none begins there. -/
def cutName (cs : List Char) : List Char × List Char :=
  match cs with
  | c :: _ => if isNameStart c then cs.span isNameChar else ([], cs)
  | [] => ([], [])

/-- Cuts off a name with or without prefix, or a prefix with a star. Two colons are no part of a
name. -/
def cutQualifiedName (cs : List Char) : List Char × List Char :=
  match cutName cs with
  | ([], _) => ([], cs)
  | (pre, ':' :: '*' :: rest) => (pre ++ [':', '*'], rest)
  | (pre, ':' :: rest) =>
    match cutName rest with
    | ([], _) => (pre, ':' :: rest)
    | (localPart, rest) => (pre ++ ':' :: localPart, rest)
  | (name, rest) => (name, rest)

/-- Cuts off a number: digits and a point, unless two points stand together. -/
def cutNumber (cs : List Char) : Decimal × List Char :=
  let (whole, rest) := cs.span Char.isDigit
  let (fraction, rest) : List Char × List Char :=
    match rest with
    | '.' :: '.' :: _ => ([], rest)
    | '.' :: rest => rest.span Char.isDigit
    | _ => ([], rest)
  ({ digits := Decimal.digitsValue (whole ++ fraction), exponent := -fraction.length }, rest)

/-- The operator that a name stands for after an operand. -/
def wordOperator? (name : String) : Option Token :=
  match name with
  | "and" => some .and
  | "or" => some .or
  | "div" => some .div
  | "mod" => some .mod
  | "eq" => some .eq
  | "ne" => some .notEq
  | "lt" => some .lt
  | "le" => some .le
  | "gt" => some .gt
  | "ge" => some .ge
  | _ => none

/-! ## Tokens -/

/-- Cuts off a star: a multiplication after an operand, else the beginning of a name test. -/
def cutStar (afterOperand : Bool) (rest : List Char) : Token × List Char :=
  if afterOperand then (.multiply, rest)
  else
    match rest with
    | ':' :: more =>
      match cutName more with
      | ([], _) => (.star, rest)
      | (localPart, rest) => (.name (String.ofList ('*' :: ':' :: localPart)), rest)
    | _ => (.star, rest)

/-- Cuts off a token that begins with a letter. After an operand it is an operator. -/
def cutWord (afterOperand : Bool) (cs : List Char) : Except ParseFault (Token × List Char) :=
  let (word, rest) := cutQualifiedName cs
  let name := String.ofList word
  if afterOperand then
    match wordOperator? name with
    | some token => .ok (token, rest)
    | none => .error (.operatorExpected name)
  else .ok (.name name, rest)

/-- Cuts off a literal after the quote that begins it and that has to end it. -/
def cutLiteral (quote : Char) (cs : List Char) : Except ParseFault (Token × List Char) :=
  match cs.span (· != quote) with
  | (value, _ :: rest) => .ok (.literal (String.ofList value), rest)
  | (_, []) => .error .unterminatedLiteral

/-- Cuts off the token that begins with the character `c`, which stands at an offset. -/
def cutToken (afterOperand : Bool) (offset : Nat) (c : Char) (rest : List Char) :
    Except ParseFault (Token × List Char) :=
  let one (token : Token) : Except ParseFault (Token × List Char) := .ok (token, rest)
  match c, rest with
  | '/', '/' :: rest => .ok (.doubleSlash, rest)
  | '/', _ => one .slash
  | '|', _ => one .pipe
  | '+', _ => one .plus
  | '-', _ => one .minus
  | '=', _ => one .eq
  | '!', '=' :: rest => .ok (.notEq, rest)
  | '!', _ => .error (.incomplete c offset)
  | '<', '=' :: rest => .ok (.le, rest)
  | '<', _ => one .lt
  | '>', '=' :: rest => .ok (.ge, rest)
  | '>', _ => one .gt
  | '(', _ => one .openParen
  | ')', _ => one .closeParen
  | '[', _ => one .openBracket
  | ']', _ => one .closeBracket
  | ',', _ => one .comma
  | '@', _ => one .atSign
  | ':', ':' :: rest => .ok (.doubleColon, rest)
  | ':', _ => .error (.incomplete c offset)
  | '*', _ => .ok (cutStar afterOperand rest)
  | '.', '.' :: rest => .ok (.dotDot, rest)
  | _, _ =>
    if c == '"' || c == '\'' then cutLiteral c rest
    else if c == '$' then
      match cutQualifiedName rest with
      | ([], _) => .error (.variableNameMissing offset)
      | (name, rest) => .ok (.variableName (String.ofList name), rest)
    else if c == '.' then
      if rest.head?.any Char.isDigit then
        let (value, rest) := cutNumber (c :: rest)
        .ok (.number value, rest)
      else one .dot
    else if c.isDigit then
      let (value, rest) := cutNumber (c :: rest)
      .ok (.number value, rest)
    else if isNameStart c then cutWord afterOperand (c :: rest)
    else .error (.unexpectedChar c offset)

/-- Cuts what is left of an expression of `length` characters; `tokens` are those before, last
first. -/
def tokensFrom (length : Nat) : (fuel : Nat) → (tokens : List Token) → List Char →
    Except ParseFault (List Token)
  | 0, tokens, _ => .ok tokens.reverse
  | _ + 1, tokens, [] => .ok tokens.reverse
  | fuel + 1, tokens, c :: rest =>
    if isBlank c then tokensFrom length fuel tokens rest
    else
      match cutToken (tokens.head?.any (·.endsOperand)) (length - (rest.length + 1)) c rest with
      | .ok (token, rest) => tokensFrom length fuel (token :: tokens) rest
      | .error fault => .error fault

/-- The tokens of an expression. -/
def tokens (cs : List Char) : Except ParseFault (List Token) :=
  tokensFrom cs.length (cs.length + 1) [] cs

end Schematron.XPath.Lexer
