import Schematron.Text.Unicode.Property

/-!
# Quoted text

A text between double quotes, in which the quote, the backslash and everything that would not show
stand as escapes: characters that are not printable, and those that would be drawn with the
character before them.
-/

namespace Schematron.Text

open Unicode

/-- An escape by code point. -/
def codeEscape (c : Char) : List Char :=
  '\\' :: 'u' :: '\x7b' :: Nat.toDigits 16 c.toNat ++ ['\x7d']

/-- A character as it stands between quotes. -/
def quoteChar (c : Char) : List Char :=
  match c with
  | '\x00' => ['\\', '0']
  | '\t' => ['\\', 't']
  | '\r' => ['\\', 'r']
  | '\n' => ['\\', 'n']
  | '"' => ['\\', '"']
  | '\\' => ['\\', '\\']
  | _ => if isGraphemeExtend c || !isPrintable c then codeEscape c else [c]

/-- A text in quotes. -/
def quote (s : String) : String :=
  String.ofList ('"' :: s.toList.flatMap quoteChar ++ ['"'])

end Schematron.Text
