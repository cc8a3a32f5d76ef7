import Schematron.Regex.Pattern

/-!
# Programs of patterns

A pattern is compiled to a list of instructions. A thread of a program reads the text from left to
right; where it may go two ways it prefers the first one. A repetition of a body that can match
the empty text is compiled as an optional repetition of at least one, which keeps the order of
preference.
-/

namespace Schematron.Regex

/-- An instruction, with the places where a thread goes on. -/
inductive Instruction where
  | one (set : CharSet) (next : Nat)
  | fork (first second : Nat)
  | save (slot next : Nat)
  | check (condition : Assertion) (isWord : CharSet) (next : Nat)
  | accept

namespace Pattern

/-- The number of instructions of a pattern. -/
def codeSize : Pattern → Nat
  | empty => 0
  | one _ => 1
  | assertion .. => 1
  | concat p q => p.codeSize + q.codeSize
  | alternate p q => p.codeSize + q.codeSize + 2
  | repetition least none _ p =>
    if least = 0 then p.codeSize + 2 else least * p.codeSize + 1
  | repetition least (some most) _ p =>
    least * p.codeSize + (most - least) * (p.codeSize + 1)
  | group _ p => p.codeSize + 2

/-- The number of instructions that a program stays below. -/
def codeBound : Nat := 327680

/-- A fork to a body or past it, in the order of preference. -/
def prefer (greedy : Bool) (body past : Nat) : Instruction :=
  if greedy then .fork body past else .fork past body

/-- The instructions of a pattern when its first one has the number `start`; a thread leaves them
at the number after the last one. A jump is a fork with one target. -/
def code (start : Nat) : Pattern → List Instruction
  | empty => []
  | one set => [.one set (start + 1)]
  | assertion condition isWord => [.check condition isWord (start + 1)]
  | concat p q => p.code start ++ q.code (start + p.codeSize)
  | alternate p q =>
    let second := start + p.codeSize + 2
    let past := second + q.codeSize
    .fork (start + 1) second :: p.code (start + 1) ++ .fork past past :: q.code second
  | repetition least none greedy p =>
    if least = 0 then
      let past := start + p.codeSize + 2
      prefer greedy (start + 1) past :: p.code (start + 1) ++ [prefer greedy (start + 1) past]
    else
      let last := start + (least - 1) * p.codeSize
      let past := last + p.codeSize + 1
      (List.range least).flatMap (fun i => p.code (start + i * p.codeSize)) ++
        [prefer greedy last past]
  | repetition least (some most) greedy p =>
    let optional := start + least * p.codeSize
    let past := optional + (most - least) * (p.codeSize + 1)
    (List.range least).flatMap (fun i => p.code (start + i * p.codeSize)) ++
      (List.range (most - least)).flatMap fun i =>
        let place := optional + i * (p.codeSize + 1)
        prefer greedy (place + 1) past :: p.code (place + 1)
  | group number p =>
    .save (2 * number) (start + 1) :: p.code (start + 1) ++
      [.save (2 * number + 1) (start + p.codeSize + 2)]

end Pattern

/-- A compiled regular expression. -/
structure Program where
  code : Array Instruction
  groups : Nat
  names : List (String × Nat)

/-- The program of an expression: the whole match is group 0. -/
def Expression.program (e : Expression) : Program :=
  let whole := Pattern.group 0 e.pattern
  ⟨(whole.code 0 ++ [Instruction.accept]).toArray, e.groups, e.names⟩

end Schematron.Regex
