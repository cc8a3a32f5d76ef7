import Schematron.Numeric.Decimal
import Schematron.Numeric.Width
import Schematron.Text.Digits
import Schematron.Toml.Value

/-!
# Strings, numbers and dates of TOML

Every reader answers what it has read with the characters that are left, or nothing.
-/

namespace Schematron.Toml

open Text

/-! ## Blanks -/

/-- Blanks within a line. -/
def isBlankChar (c : Char) : Bool := c == ' ' || c == '\t'

def skipBlanks (cs : List Char) : List Char := cs.dropWhile isBlankChar

/-- A character that may stand in comments and literal strings. -/
def isPrintableChar (c : Char) : Bool := c == '\t' || (0x20 ≤ c.toNat && c.toNat != 0x7F)

/-- What is left after a line end: a line feed, which a carriage return may precede. -/
def newline? : List Char → Option (List Char)
  | '\n' :: rest => some rest
  | '\r' :: '\n' :: rest => some rest
  | _ => none

/-- What is left after a comment, up to its line end. -/
def skipComment (cs : List Char) : List Char :=
  match cs with
  | '#' :: rest => rest.dropWhile isPrintableChar
  | _ => cs

/-! ## Strings -/

/-- The characters that escapes of one letter stand for. -/
def letterEscape? (c : Char) : Option Char :=
  match c with
  | 'b' => some '\x08'
  | 'f' => some '\x0C'
  | 'n' => some '\n'
  | 'r' => some '\r'
  | 't' => some '\t'
  | '"' => some '"'
  | '\\' => some '\\'
  | _ => none

/-- Reads this many hexadecimal digits of a code point. -/
def readCode (count : Nat) (cs : List Char) : Option (Char × List Char) :=
  let digits := cs.take count
  if digits.length = count then
    (digits? 16 digits).bind fun n =>
      if n.isValidChar then some (Char.ofNat n, cs.drop count) else none
  else none

/-- Reads an escape after its backslash. -/
def readEscape (cs : List Char) : Option (Char × List Char) :=
  match cs with
  | 'u' :: rest => readCode 4 rest
  | 'U' :: rest => readCode 8 rest
  | c :: rest => (letterEscape? c).map (·, rest)
  | [] => none

/-- Reads the rest of a string between double quotes. -/
def readBasic : (fuel : Nat) → (seen : List Char) → List Char → Option (String × List Char)
  | 0, _, _ => none
  | _ + 1, _, [] => none
  | fuel + 1, seen, c :: rest =>
    if c == '"' then some (String.ofList seen.reverse, rest)
    else if c == '\\' then
      match readEscape rest with
      | some (c, rest) => readBasic fuel (c :: seen) rest
      | none => none
    else if isPrintableChar c then readBasic fuel (c :: seen) rest
    else none

/-- Reads the rest of a string between single quotes, in which nothing is escaped. -/
def readLiteral (cs : List Char) : Option (String × List Char) :=
  match cs.span fun c => isPrintableChar c && c != '\'' with
  | (text, '\'' :: rest) => some (String.ofList text, rest)
  | _ => none

/-- The number of quotes at the beginning that end a string of several lines: three, and two more
that belong to the string. -/
def closingQuotes (quote : Char) (cs : List Char) : Nat :=
  ((cs.take 5).takeWhile (· == quote)).length

/-- What is left after an escaped line end and the blanks and line ends that follow it. -/
def foldLine? (cs : List Char) : Option (List Char) :=
  (newline? (skipBlanks cs)).map fun rest =>
    rest.dropWhile fun c => isBlankChar c || c == '\n' || c == '\r'

/-- Reads the rest of a string of several lines. A line end stands for a line feed. -/
def readLines (quote : Char) (escapes : Bool) : (fuel : Nat) → (seen : List Char) → List Char →
    Option (String × List Char)
  | 0, _, _ => none
  | _ + 1, _, [] => none
  | fuel + 1, seen, c :: rest =>
    if c == quote then
      let count := closingQuotes quote (c :: rest)
      if 3 ≤ count then
        some (String.ofList (seen.reverse ++ List.replicate (count - 3) quote),
          (c :: rest).drop count)
      else readLines quote escapes fuel (c :: seen) rest
    else if escapes && c == '\\' then
      match foldLine? rest with
      | some rest => readLines quote escapes fuel seen rest
      | none =>
        match readEscape rest with
        | some (c, rest) => readLines quote escapes fuel (c :: seen) rest
        | none => none
    else
      match newline? (c :: rest) with
      | some rest => readLines quote escapes fuel ('\n' :: seen) rest
      | none =>
        if isPrintableChar c then readLines quote escapes fuel (c :: seen) rest else none

/-- The text after the opening quotes without a line end right there. -/
def dropFirstNewline (cs : List Char) : List Char := (newline? cs).getD cs

/-- Reads a string. -/
def readString (cs : List Char) : Option (String × List Char) :=
  let fuel := cs.length
  match cs with
  | '"' :: '"' :: '"' :: rest => readLines '"' true fuel [] (dropFirstNewline rest)
  | '\'' :: '\'' :: '\'' :: rest => readLines '\'' false fuel [] (dropFirstNewline rest)
  | '"' :: rest => readBasic fuel [] rest
  | '\'' :: rest => readLiteral rest
  | _ => none

/-! ## Numbers -/

/-- Reads digits with single low lines between them; the low lines are left out. -/
def spanDigits (isDigit : Char → Bool) (cs : List Char) : Option (List Char × List Char) :=
  let (run, rest) := cs.span fun c => isDigit c || c == '_'
  let pieces := run.splitOn '_'
  if pieces.all fun piece => !piece.isEmpty then some (pieces.flatten, rest) else none

/-- Reads a sign, which may be left out. -/
def readSign (cs : List Char) : Bool × List Char :=
  match cs with
  | '-' :: rest => (true, rest)
  | '+' :: rest => (false, rest)
  | _ => (false, cs)

/-- A number of 64 bits with a sign. -/
def ofInteger (n : Int) : Option Value :=
  if Numeric.fitsSigned 64 n then some (.integer n) else none

/-- Reads an unsigned integer in another base after its mark. -/
def readBased (base : Nat) (cs : List Char) : Option (Value × List Char) := do
  let (ds, rest) ← spanDigits (fun c => (digit? base c).isSome) cs
  some (← ofInteger (← digits? base ds), rest)

/-- Reads the digits of a decimal integer, which begin with a zero only if that is all. -/
def readWhole (cs : List Char) : Option (List Char × List Char) :=
  match cs with
  | '0' :: rest => some (['0'], rest)
  | _ => spanDigits Char.isDigit cs

/-- Reads a fraction after its point. -/
def readFraction (cs : List Char) : Option (List Char × List Char) :=
  match cs with
  | '.' :: rest => spanDigits Char.isDigit rest
  | _ => some ([], cs)

/-- Reads an exponent with its mark. -/
def readExponent (cs : List Char) : Option (Int × List Char) :=
  let read (rest : List Char) : Option (Int × List Char) := do
    let (negative, rest) := readSign rest
    let (ds, rest) ← spanDigits Char.isDigit rest
    let n : Int := Numeric.Decimal.digitsValue ds
    some (if negative then -n else n, rest)
  match cs with
  | 'e' :: rest | 'E' :: rest => read rest
  | _ => some (0, cs)

/-- Reads an integer or a float. A float beyond the largest double is none. -/
def readNumber (cs : List Char) : Option (Value × List Char) := do
  match cs with
  | '0' :: 'x' :: rest => readBased 16 rest
  | '0' :: 'o' :: rest => readBased 8 rest
  | '0' :: 'b' :: rest => readBased 2 rest
  | _ =>
    let (negative, cs) := readSign cs
    match cs with
    | 'i' :: 'n' :: 'f' :: rest =>
      some (.float (if negative then -(1.0 / 0.0) else 1.0 / 0.0), rest)
    | 'n' :: 'a' :: 'n' :: rest => some (.float (0.0 / 0.0), rest)
    | _ =>
      let (whole, rest) ← readWhole cs
      match rest.head? with
      | some '.' | some 'e' | some 'E' =>
        let (fraction, rest) ← readFraction rest
        let (exponent, rest) ← readExponent rest
        let d : Numeric.Decimal :=
          ⟨negative, Numeric.Decimal.digitsValue (whole ++ fraction),
            exponent - fraction.length⟩
        let x := d.toFloat
        if x == 1.0 / 0.0 then none else some (.float x, rest)
      | _ =>
        let n : Int := Numeric.Decimal.digitsValue whole
        some (← ofInteger (if negative then -n else n), rest)

/-! ## Dates and times -/

/-- Reads exactly this many digits that mean a number between two bounds. -/
def readField (count least most : Nat) (cs : List Char) : Option (List Char × List Char) :=
  let ds := cs.take count
  let n := Numeric.Decimal.digitsValue ds
  if ds.length = count ∧ ds.all Char.isDigit ∧ least ≤ n ∧ n ≤ most then
    some (ds, cs.drop count)
  else none

/-- The number of days of a month. -/
def daysOf (year month : Nat) : Nat :=
  match month with
  | 2 => if year % 4 = 0 ∧ (year % 100 ≠ 0 ∨ year % 400 = 0) then 29 else 28
  | 4 | 6 | 9 | 11 => 30
  | _ => 31

/-- Reads a character that must stand here. -/
def readChar (wanted : Char) (cs : List Char) : Option (List Char) :=
  match cs with
  | c :: rest => if c == wanted then some rest else none
  | [] => none

/-- Reads a date. -/
def readDate (cs : List Char) : Option (List Char × List Char) := do
  let (year, cs) ← readField 4 0 9999 cs
  let cs ← readChar '-' cs
  let (month, cs) ← readField 2 1 12 cs
  let cs ← readChar '-' cs
  let value := Numeric.Decimal.digitsValue
  let (day, cs) ← readField 2 1 (daysOf (value year) (value month)) cs
  some (year ++ '-' :: month ++ '-' :: day, cs)

/-- The nine digits of nanoseconds that count, without zeros at the end. -/
def nanoseconds (ds : List Char) : List Char :=
  match ((ds.take 9).reverse.dropWhile (· == '0')).reverse with
  | [] => []
  | ds => '.' :: ds

/-- Reads a time. -/
def readTime (cs : List Char) : Option (List Char × List Char) := do
  let (hour, cs) ← readField 2 0 23 cs
  let cs ← readChar ':' cs
  let (minute, cs) ← readField 2 0 59 cs
  let cs ← readChar ':' cs
  let (second, cs) ← readField 2 0 60 cs
  let time := hour ++ ':' :: minute ++ ':' :: second
  match cs with
  | '.' :: rest =>
    match rest.span Char.isDigit with
    | ([], _) => some (time, cs)
    | (ds, rest) => some (time ++ nanoseconds ds, rest)
  | _ => some (time, cs)

/-- Reads the offset of a time from that of Greenwich; without one the time is local. -/
def readOffset (cs : List Char) : List Char × List Char :=
  let numeric (sign : Char) (rest : List Char) : Option (List Char × List Char) := do
    let (hour, rest) ← readField 2 0 23 rest
    let rest ← readChar ':' rest
    let (minute, rest) ← readField 2 0 59 rest
    some (sign :: hour ++ ':' :: minute, rest)
  match cs with
  | 'Z' :: rest | 'z' :: rest => (['Z'], rest)
  | '+' :: rest => (numeric '+' rest).getD ([], cs)
  | '-' :: rest => (numeric '-' rest).getD ([], cs)
  | _ => ([], cs)

/-- Reads the time that follows a date, if one does. -/
def readTimeAfterDate (date cs : List Char) : List Char × List Char :=
  match cs with
  | c :: rest =>
    if c == 'T' || c == 't' || c == ' ' then
      match readTime rest with
      | some (time, rest) =>
        let (offset, rest) := readOffset rest
        (date ++ 'T' :: time ++ offset, rest)
      | none => (date, cs)
    else (date, cs)
  | [] => (date, cs)

/-- Reads a date, a time, or a date and a time. -/
def readDatetime (cs : List Char) : Option (Value × List Char) :=
  let answer (r : List Char × List Char) : Value × List Char :=
    (.datetime (String.ofList r.1), r.2)
  match readDate cs with
  | some (date, rest) => some (answer (readTimeAfterDate date rest))
  | none => (readTime cs).map answer

end Schematron.Toml
