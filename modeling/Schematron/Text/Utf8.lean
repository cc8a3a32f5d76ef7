/-!
# Decoding bytes

Bytes that are meant to be UTF-8 are decoded by taking them in one after the other. Where they are
not well-formed, the longest beginning of a character counts as one replacement character.
-/

namespace Schematron.Text.Utf8

/-- A character of which bytes are still to come: the code so far, the number of missing bytes,
and the bounds of the next one. -/
structure Pending where
  code : Nat
  missing : Nat
  least : UInt8 := 0x80
  most : UInt8 := 0xBF
  deriving DecidableEq, Repr

/-- The replacement character. -/
def replacement : Char := '\uFFFD'

/-- Takes in a byte at the beginning of a character. -/
def start (b : UInt8) : List Char × Option Pending :=
  let code := b.toNat
  if b < 0x80 then ([Char.ofNat code], none)
  else if b < 0xC2 then ([replacement], none)
  else if b < 0xE0 then ([], some { code := code - 0xC0, missing := 1 })
  else if b == 0xE0 then ([], some { code := 0, missing := 2, least := 0xA0 })
  else if b == 0xED then ([], some { code := 0xD, missing := 2, most := 0x9F })
  else if b < 0xF0 then ([], some { code := code - 0xE0, missing := 2 })
  else if b == 0xF0 then ([], some { code := 0, missing := 3, least := 0x90 })
  else if b < 0xF4 then ([], some { code := code - 0xF0, missing := 3 })
  else if b == 0xF4 then ([], some { code := 4, missing := 3, most := 0x8F })
  else ([replacement], none)

/-- Takes in a byte. -/
def step (pending : Option Pending) (b : UInt8) : List Char × Option Pending :=
  match pending with
  | none => start b
  | some p =>
    if p.least ≤ b && b ≤ p.most then
      let code := p.code * 64 + (b.toNat - 0x80)
      if p.missing ≤ 1 then ([Char.ofNat code], none)
      else ([], some { code, missing := p.missing - 1 })
    else
      let (cs, next) := start b
      (replacement :: cs, next)

/-- Decodes bytes after what is pending. -/
def decodeFrom (pending : Option Pending) : List UInt8 → List Char
  | [] => if pending.isSome then [replacement] else []
  | b :: rest =>
    let (cs, next) := step pending b
    cs ++ decodeFrom next rest

/-- The text of bytes, whether they are well-formed or not. -/
def decode (bytes : ByteArray) : String := String.ofList (decodeFrom none bytes.toList)

end Schematron.Text.Utf8
