import Schematron.Regex.Program

/-!
# Searching

All threads of a program read the text in step, in the order of their preference. Of two threads
at the same instruction only the preferred one stays, so a search takes time proportional to the
length of the text times the size of the program.
-/

namespace Schematron.Regex

/-- Where the groups begin and end: for group `n` the places in the slots `2n` and `2n + 1`. -/
abbrev Slots := Array (Option Nat)

/-- A thread: the instruction it is at, and its slots. -/
structure Thread where
  counter : Nat
  slots : Slots

/-- A place in a text: its number, the character before it and those after it. -/
structure Place where
  index : Nat
  before : Option Char
  after : List Char

namespace Program

/-- Follows the instructions that read nothing. The threads on the stack come in the order of
preference; instructions that were met before are left out. Answers the threads that wait for a
character or accept, last first. -/
def follow (program : Program) (place : Place) :
    (fuel : Nat) → (stack : List Thread) → (met : Array Bool) → (waiting : List Thread) →
    List Thread × Array Bool
  | 0, _, met, waiting => (waiting, met)
  | _ + 1, [], met, waiting => (waiting, met)
  | fuel + 1, thread :: stack, met, waiting =>
    if met.getD thread.counter true then follow program place fuel stack met waiting
    else
      let met := met.setIfInBounds thread.counter true
      match program.code[thread.counter]? with
      | some (.fork first second) =>
        follow program place fuel (⟨first, thread.slots⟩ :: ⟨second, thread.slots⟩ :: stack)
          met waiting
      | some (.save slot next) =>
        let slots := thread.slots.setIfInBounds slot (some place.index)
        follow program place fuel (⟨next, slots⟩ :: stack) met waiting
      | some (.check condition isWord next) =>
        let stack :=
          if condition.holds isWord place.before place.after.head? then
            ⟨next, thread.slots⟩ :: stack
          else stack
        follow program place fuel stack met waiting
      | some (.one ..) | some .accept => follow program place fuel stack met (thread :: waiting)
      | none => follow program place fuel stack met waiting

/-- The threads that wait after those of a stack have followed what reads nothing. -/
def settle (program : Program) (place : Place) (stack : List Thread) : List Thread :=
  let size := program.code.size
  let met := Array.replicate size false
  (program.follow place (3 * (size + stack.length) + 3) stack met []).1.reverse

/-- The threads up to the first one that accepts, and the slots of that one. -/
def accepted (program : Program) : List Thread → List Thread × Option Slots
  | [] => ([], none)
  | thread :: rest =>
    match program.code[thread.counter]? with
    | some .accept => ([], some thread.slots)
    | _ =>
      let (before, slots) := accepted program rest
      (thread :: before, slots)

/-- The threads that can read a character, moved past it. -/
def advance (program : Program) (c : Char) (threads : List Thread) : List Thread :=
  threads.filterMap fun (thread : Thread) =>
    match program.code[thread.counter]? with
    | some (.one set next) => if set c then some ⟨next, thread.slots⟩ else none
    | _ => none

/-- A thread at the beginning of the program. -/
def start (program : Program) : Thread :=
  ⟨0, Array.replicate (2 * (program.groups + 1)) none⟩

/-- Searches from a place on. A new thread starts at every place until a match is found; a found
match is given up for one of a preferred thread only. -/
def searchFrom (program : Program) (threads : List Thread) (found : Option Slots)
    (index : Nat) (before : Option Char) : List Char → Option Slots
  | [] =>
    let stack := if found.isNone then threads ++ [program.start] else threads
    (program.accepted (program.settle ⟨index, before, []⟩ stack)).2 <|> found
  | c :: rest =>
    let stack := if found.isNone then threads ++ [program.start] else threads
    let (waiting, slots) :=
      program.accepted (program.settle ⟨index, before, c :: rest⟩ stack)
    let found := slots <|> found
    if waiting.isEmpty && found.isSome then found
    else searchFrom program (program.advance c waiting) found (index + 1) (some c) rest

/-- The leftmost match from a place on. -/
def search (program : Program) (place : Place) : Option Slots :=
  program.searchFrom [] none place.index place.before place.after

/-- The text has a match. -/
def isMatch (program : Program) (text : List Char) : Bool :=
  (program.search ⟨0, none, text⟩).isSome

/-! ## All matches -/

/-- The beginning and the end of a group. -/
def span? (slots : Slots) (group : Nat) : Option (Nat × Nat) :=
  match slots[2 * group]?, slots[2 * group + 1]? with
  | some (some first), some (some last) => some (first, last)
  | _, _ => none

/-- The place after some more characters. -/
def moveOn (place : Place) (count : Nat) : Place :=
  if count = 0 then place
  else
    ⟨place.index + count, (place.after[count - 1]?) <|> place.before, place.after.drop count⟩

/-- The matches from a place on, one after the other. An empty match at the end of the match
before it does not count. -/
def matchesFrom (program : Program) : (fuel : Nat) → Place → (last : Option Nat) → List Slots
  | 0, _, _ => []
  | fuel + 1, place, last =>
    match program.search place with
    | none => []
    | some slots =>
      match span? slots 0 with
      | none => []
      | some (first, stop) =>
        if first = stop ∧ last = some stop then
          if place.after.isEmpty then [] else matchesFrom program fuel (moveOn place 1) none
        else slots :: matchesFrom program fuel (moveOn place (stop - place.index)) (some stop)

/-- The matches in a text, from left to right. -/
def allMatches (program : Program) (text : List Char) : List Slots :=
  program.matchesFrom (2 * text.length + 2) ⟨0, none, text⟩ none

end Program

end Schematron.Regex
