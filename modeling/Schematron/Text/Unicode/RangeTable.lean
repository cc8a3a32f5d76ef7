/-!
# Tables of code point ranges

A set of characters as an ascending array of disjoint ranges, written as a text of hexadecimal
ranges (`41-5A 5F 61-7A`) and searched by bisection.
-/

namespace Schematron.Unicode

/-- Bisection between `low` and `high`, which halves their distance on every step. -/
def bisect (test : Nat → Bool) : (fuel low high : Nat) → Nat
  | 0, low, _ => low
  | fuel + 1, low, high =>
    if low < high then
      let middle := (low + high) / 2
      if test middle then bisect test fuel (middle + 1) high else bisect test fuel low middle
    else low

/-- The number of leading entries that pass a test, which only a leading part of them passes. -/
def countLeading {α : Type} (entries : Array α) (test : α → Bool) : Nat :=
  bisect (fun i => match entries[i]? with | some e => test e | none => false)
    (entries.size + 1) 0 entries.size

/-- A set of characters: ascending disjoint ranges of code points, ends included. -/
structure RangeTable where
  ranges : Array (Nat × Nat)

namespace RangeTable

/-- The value of a hexadecimal digit in upper case. -/
def hexDigitValue (c : Char) : Nat :=
  if c.isDigit then c.toNat - '0'.toNat else c.toNat - 'A'.toNat + 10

/-- Reads a range: its first number, and its last where one is written. -/
def readRange (text : String) : Nat × Nat :=
  let value (part : String) := part.toList.foldl (fun n c => n * 16 + hexDigitValue c) 0
  match String.splitToList text (· == '-') with
  | [first, last] => (value first, value last)
  | first :: _ => (value first, value first)
  | [] => (0, 0)

/-- Reads the ranges of all lines, which are separated by spaces. -/
def ofText (lines : List String) : RangeTable where
  ranges := (lines.flatMap fun line => (String.splitToList line (· == ' ')).map readRange).toArray

/-- Membership of a character. -/
def contains (table : RangeTable) (c : Char) : Bool :=
  let n := c.toNat
  match table.ranges[countLeading table.ranges (fun range => range.1 ≤ n) - 1]? with
  | some range => range.1 ≤ n && n ≤ range.2
  | none => false

end RangeTable

end Schematron.Unicode
