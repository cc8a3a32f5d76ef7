import Schematron.Regex.Pattern
import Schematron.Text.Blank
import Schematron.Text.Digits

/-!
# Reading regular expressions

A pattern is read from left to right with an explicit stack of open groups, and the classes in it
with a stack of open brackets. Flags hold from where they are set to the end of their group.
Back references and look-around have no meaning here, and nothing is a literal brace, bracket or
parenthesis without being escaped, the closing ones of brackets and braces apart.

Every reader answers what it has read with the characters that are left, or nothing.
-/

namespace Schematron.Regex

open Unicode Text

/-! ## Flags -/

/-- The flags in force at a place of a pattern. -/
structure Flags where
  ignoreCase : Bool := false
  multiLine : Bool := false
  dotAll : Bool := false
  swapGreed : Bool := false
  unicode : Bool := true
  crlf : Bool := false
  extended : Bool := false
  deriving DecidableEq, Repr, Inhabited

namespace Flags

/-- Switches the flag of a letter. -/
def set? (flags : Flags) (on : Bool) (letter : Char) : Option Flags :=
  match letter with
  | 'i' => some { flags with ignoreCase := on }
  | 'm' => some { flags with multiLine := on }
  | 's' => some { flags with dotAll := on }
  | 'U' => some { flags with swapGreed := on }
  | 'u' => some { flags with unicode := on }
  | 'R' => some { flags with crlf := on }
  | 'x' => some { flags with extended := on }
  | _ => none

/-- Applies a list of flag letters: those after a hyphen are switched off. No letter stands twice,
and a hyphen stands before a letter. -/
def switchAll? (flags : Flags) (letters : List Char) : Option Flags :=
  if letters.eraseDups.length ≠ letters.length || letters.getLast? == some '-' then none
  else
    (letters.foldlM (fun (state : Flags × Bool) letter =>
      if letter == '-' then some (state.1, false)
      else (state.1.set? state.2 letter).map (·, state.2)) (flags, true)).map (·.1)

end Flags

/-! ## Blanks and comments -/

/-- What is left after blanks and comments, from inside a comment or not. -/
def skipBlanks : (inComment : Bool) → List Char → List Char
  | _, [] => []
  | true, c :: rest => skipBlanks (c != '\n') rest
  | false, c :: rest =>
    if isBlank c then skipBlanks false rest
    else if c == '#' then skipBlanks true rest
    else c :: rest

/-- What is left after what an extended pattern does not count. -/
def Flags.skip (flags : Flags) (cs : List Char) : List Char :=
  if flags.extended then skipBlanks false cs else cs

/-! ## Escapes -/

/-- What an escape or a character of a class stands for. -/
inductive Escaped where
  | literal (c : Char)
  | set (s : CharSet)
  | assertion (condition : Assertion)

/-- The character of a code point in hexadecimal digits. -/
def hexChar? (digits : List Char) : Option Char :=
  (digits? 16 digits).bind fun n => if n.isValidChar then some (Char.ofNat n) else none

/-- Reads this many digits, between which blanks may stand in an extended pattern. -/
def readHexDigits (flags : Flags) : (count : Nat) → (seen : List Char) → List Char →
    Option (List Char × List Char)
  | 0, seen, cs => some (seen.reverse, cs)
  | count + 1, seen, c :: rest => readHexDigits flags count (c :: seen) (flags.skip rest)
  | _ + 1, _, [] => none

/-- The characters up to a closing brace and those after it. -/
def readBraced (flags : Flags) (cs : List Char) : Option (List Char × List Char) :=
  let cs := cs.span (· != '\x7d')
  match cs.2 with
  | _ :: rest =>
    some (if flags.extended then cs.1.filter (fun c => !isBlank c) else cs.1, rest)
  | [] => none

/-- Reads the digits of a hexadecimal escape, a fixed number of them or any number in braces. -/
def readHex (flags : Flags) (count : Nat) (cs : List Char) : Option (Escaped × List Char) := do
  match flags.skip cs with
  | '\x7b' :: rest =>
    let (digits, rest) ← readBraced flags rest
    some (.literal (← hexChar? digits), flags.skip rest)
  | cs =>
    let (digits, rest) ← readHexDigits flags count [] cs
    some (.literal (← hexChar? digits), rest)

/-- A set, its other case if case is ignored, and its complement if it is negated. -/
def foldAndNegate (flags : Flags) (negated : Bool) (s : CharSet) : CharSet :=
  let s := if flags.ignoreCase then s.folded else s
  if negated then s.complement else s

/-- The set of a property in braces, such as `Greek`, `sc=Greek` or `sc!=Greek`. -/
def property? (flags : Flags) (negated : Bool) (name : List Char) : Option CharSet :=
  match cutAt? (· == '!') name with
  | some (property, '=' :: value) =>
    (CharSet.valued? property value).map (foldAndNegate flags !negated)
  | _ =>
    match cutAt? (· == ':') name <|> cutAt? (· == '=') name with
    | some (property, value) => (CharSet.valued? property value).map (foldAndNegate flags negated)
    | none => (CharSet.named? name).map (foldAndNegate flags negated)

/-- Reads what follows `\p` or `\P`: one letter, or a name in braces. -/
def readProperty (flags : Flags) (negated : Bool) (cs : List Char) :
    Option (Escaped × List Char) := do
  guard flags.unicode
  match flags.skip cs with
  | '\x7b' :: rest =>
    let (name, rest) ← readBraced flags rest
    some (.set (← property? flags negated name), rest)
  | c :: rest =>
    guard (c != '\\')
    some (.set (foldAndNegate flags negated (← CharSet.named? [c])), flags.skip rest)
  | [] => none

/-- The class of a letter such as `\d`, or its complement. Without Unicode a complement would
hold half characters, so there is none. -/
def letterClass? (flags : Flags) (negated : Bool) (name : String) (s : CharSet) :
    Option Escaped :=
  if flags.unicode then some (.set (if negated then s.complement else s))
  else if negated then none
  else (CharSet.ascii? name).map .set

/-- The kinds of word boundaries that are written in braces after `\b`. -/
def boundary? (name : List Char) : Option Assertion :=
  match String.ofList name with
  | "start" => some .wordStart
  | "end" => some .wordEnd
  | "start-half" => some .wordStartHalf
  | "end-half" => some .wordEndHalf
  | _ => none

def isBoundaryChar (c : Char) : Bool := c.isAlpha || c == '-'

/-- Reads what follows `\b`. Braces that begin with a letter name a kind of boundary; any others
are left for the repetition that they are. -/
def readBoundary (flags : Flags) (cs : List Char) : Option (Escaped × List Char) :=
  match cs with
  | '\x7b' :: rest =>
    match flags.skip rest with
    | [] => none
    | c :: _ =>
      if isBoundaryChar c then do
        let (name, rest) ← readBraced flags rest
        some (.assertion (← boundary? name), rest)
      else some (.assertion .wordBoundary, cs)
  | _ => some (.assertion .wordBoundary, cs)

/-- The characters with a meaning of their own, which an escape takes away. -/
def isMeta (c : Char) : Bool := "\\.+*?()|[]\x7b\x7d^$#&-~".toList.contains c

/-- An escape takes nothing away from these characters and is allowed before them. -/
def isPlain (c : Char) : Bool :=
  c.toNat < 0x80 && !c.isAlphanum && c != '<' && c != '>'

/-- Reads an escape after its backslash. -/
def readEscape (flags : Flags) (cs : List Char) : Option (Escaped × List Char) :=
  match cs with
  | [] => none
  | c :: rest =>
    let literal (c : Char) : Option (Escaped × List Char) := some (.literal c, rest)
    let assertion (a : Assertion) : Option (Escaped × List Char) := some (.assertion a, rest)
    let letter (negated : Bool) (name : String) (s : CharSet) :=
      (letterClass? flags negated name s).map (·, rest)
    match c with
    | 'x' => readHex flags 2 rest
    | 'u' => readHex flags 4 rest
    | 'U' => readHex flags 8 rest
    | 'p' => readProperty flags false rest
    | 'P' => readProperty flags true rest
    | 'd' => letter false "digit" CharSet.digit
    | 'D' => letter true "digit" CharSet.digit
    | 's' => letter false "space" CharSet.space
    | 'S' => letter true "space" CharSet.space
    | 'w' => letter false "word" CharSet.word
    | 'W' => letter true "word" CharSet.word
    | 'a' => literal '\x07'
    | 'f' => literal '\x0C'
    | 't' => literal '\t'
    | 'n' => literal '\n'
    | 'r' => literal '\r'
    | 'v' => literal '\x0B'
    | 'A' => assertion .textStart
    | 'z' => assertion .textEnd
    | 'b' => readBoundary flags rest
    | 'B' => assertion .noWordBoundary
    | '<' => assertion .wordStart
    | '>' => assertion .wordEnd
    | _ => if isMeta c || isPlain c then literal c else none

/-! ## Classes -/

/-- A set with the depth of nesting in the text it was read from. -/
structure ClassItem where
  set : CharSet
  depth : Nat := 0

/-- The operations between the parts of a class. -/
inductive ClassOperation where
  | inter | diff | symmDiff
  deriving DecidableEq, Repr

/-- What is open while a class is read: a bracket, with the items before it, or an operation, with
its left operand. -/
inductive ClassFrame where
  | bracket (items : List ClassItem) (negated : Bool)
  | operation (kind : ClassOperation) (left : ClassItem)

/-- The union of items. -/
def unite : List ClassItem → ClassItem
  | [] => ⟨CharSet.none, 0⟩
  | [item] => item
  | items =>
    ⟨items.foldl (fun s item => s.union item.set) CharSet.none,
      1 + items.foldl (fun n item => max n item.depth) 0⟩

/-- A set with its other case, if case is ignored. -/
def foldCase (flags : Flags) (s : CharSet) : CharSet :=
  if !flags.ignoreCase then s else if flags.unicode then s.folded else s.foldedAscii

/-- Closes the operation that is open last, if one is, with its right operand. -/
def closeOperation (flags : Flags) (right : ClassItem) : List ClassFrame →
    ClassItem × List ClassFrame
  | .operation kind left :: frames =>
    let s := foldCase flags left.set
    let t := foldCase flags right.set
    let set :=
      match kind with
      | .inter => s.inter t
      | .diff => s.diff t
      | .symmDiff => s.symmDiff t
    (⟨set, 1 + max left.depth right.depth⟩, frames)
  | frames => (right, frames)

/-- Reads the hyphens at the beginning of a class, which stand for themselves. -/
def spanHyphens (flags : Flags) (items : List ClassItem) : List Char →
    List ClassItem × List Char
  | [] => (items, [])
  | c :: rest =>
    if c == '-' then spanHyphens flags (⟨CharSet.single '-', 0⟩ :: items) rest
    else if flags.extended && isBlank c then spanHyphens flags items rest
    else (items, c :: rest)

/-- Reads the beginning of a class after its bracket: a caret, hyphens, and else a closing
bracket, both of which stand for themselves there. Answers whether the class is negated and its
first items. -/
def openClass (flags : Flags) (cs : List Char) : Bool × List ClassItem × List Char :=
  let (negated, cs) : Bool × List Char :=
    match flags.skip cs with
    | '^' :: rest => (true, flags.skip rest)
    | cs => (false, cs)
  match spanHyphens flags [] cs with
  | ([], ']' :: rest) => (negated, [⟨CharSet.single ']', 0⟩], rest)
  | (items, cs) => (negated, items, cs)

/-- Reads a class such as `[:alpha:]` after its first bracket. -/
def readAsciiClass (flags : Flags) (cs : List Char) : Option (ClassItem × List Char) := do
  let ':' :: cs := cs | none
  let (negated, cs) : Bool × List Char :=
    match cs with
    | '^' :: rest => (true, rest)
    | _ => (false, cs)
  let (name, ':' :: ']' :: rest) := cs.span (· != ':') | none
  let s ← CharSet.ascii? (String.ofList name)
  some (⟨foldAndNegate flags negated s, 0⟩, rest)

/-- Reads a character or an escape in a class. -/
def readClassChar (flags : Flags) (cs : List Char) : Option (Escaped × List Char) :=
  match cs with
  | '\\' :: rest => readEscape flags rest
  | c :: rest => if flags.unicode || c.toNat < 0x80 then some (.literal c, rest) else none
  | [] => none

/-- Reads a character, an escape or a range in a class. A hyphen before a closing bracket or
before another hyphen makes no range. -/
def readClassItem (flags : Flags) (cs : List Char) : Option (ClassItem × List Char) := do
  let (first, rest) ← readClassChar flags cs
  let rest := flags.skip rest
  let single : Option ClassItem :=
    match first with
    | .literal c => some ⟨CharSet.single c, 0⟩
    | .set s => some ⟨s, 0⟩
    | .assertion _ => none
  match rest with
  | '-' :: afterHyphen =>
    match flags.skip afterHyphen with
    | [] => none
    | ']' :: _ | '-' :: _ => some (← single, rest)
    | cs =>
      let (last, rest) ← readClassChar flags cs
      match first, last with
      | .literal a, .literal b => if a ≤ b then some (⟨CharSet.range a b, 0⟩, rest) else none
      | _, _ => none
  | _ => some (← single, rest)

/-- Reads the rest of a class, of which the innermost union has the items so far, last first. -/
def readClass (flags : Flags) : (fuel : Nat) → List ClassFrame → List ClassItem → List Char →
    Option (ClassItem × List Char)
  | 0, _, _, _ => none
  | fuel + 1, frames, items, cs =>
    let operation (kind : ClassOperation) (rest : List Char) :=
      let (left, frames) := closeOperation flags (unite items) frames
      readClass flags fuel (.operation kind left :: frames) [] rest
    match flags.skip cs with
    | [] => none
    | '[' :: rest =>
      match readAsciiClass flags rest with
      | some (item, rest) => readClass flags fuel frames (item :: items) rest
      | none =>
        let (negated, inner, rest) := openClass flags rest
        readClass flags fuel (.bracket items negated :: frames) inner rest
    | ']' :: rest =>
      let (item, frames) := closeOperation flags (unite items) frames
      match frames with
      | .bracket outer negated :: frames =>
        if negated && !flags.unicode then none
        else
          let set := foldCase flags item.set
          let item : ClassItem := ⟨if negated then set.complement else set, 1 + item.depth⟩
          if frames.isEmpty then some (item, rest)
          else readClass flags fuel frames (item :: outer) rest
      | _ => none
    | '&' :: '&' :: rest => operation .inter rest
    | '-' :: '-' :: rest => operation .diff rest
    | '~' :: '~' :: rest => operation .symmDiff rest
    | cs =>
      match readClassItem flags cs with
      | some (item, rest) => readClass flags fuel frames (item :: items) rest
      | none => none

/-! ## Repetitions -/

/-- The bound that repetition counts stay below. -/
def countBound : Nat := Nat.pow 2 32

/-- The digits at the beginning, between which blanks may stand in an extended pattern. -/
def spanDigits (flags : Flags) : List Char → List Char × List Char
  | [] => ([], [])
  | c :: rest =>
    if c.isDigit then
      let (digits, rest) := spanDigits flags rest
      (c :: digits, rest)
    else if flags.extended && isBlank c then spanDigits flags rest
    else ([], c :: rest)

/-- Reads a count with the blanks around it. -/
def readCount (flags : Flags) (cs : List Char) : Option (Nat × List Char) :=
  let (digits, rest) := spanDigits flags (cs.dropWhile isBlank)
  (digits? 10 digits).bind fun n =>
    if n < countBound then some (n, rest.dropWhile isBlank) else none

/-- Reads the counts of a repetition after its opening brace, and the closing one. -/
def readCounts (flags : Flags) (cs : List Char) : Option (Nat × Option Nat × List Char) := do
  let (least, cs) ← readCount flags (flags.skip cs)
  match cs with
  | '\x7d' :: rest => some (least, some least, rest)
  | ',' :: rest =>
    match flags.skip rest with
    | '\x7d' :: rest => some (least, none, rest)
    | cs =>
      let (most, cs) ← readCount flags cs
      match cs with
      | '\x7d' :: rest => if least ≤ most then some (least, some most, rest) else none
      | _ => none
  | _ => none

/-! ## Groups -/

/-- A part of a pattern with its depth of nesting. What only sets flags cannot be repeated. -/
structure Item where
  pattern : Pattern
  depth : Nat := 0
  repeatable : Bool := true

/-- A group that is open: the items and branches before it, both last first, its number, and the
flags that hold again after it. -/
structure GroupFrame where
  items : List Item
  branches : List Item
  number : Option Nat
  flags : Flags

/-- A pattern that is being read: what is left of the text, the open groups, the items and
branches of the innermost group, last first, and the groups so far with their names. -/
structure Reading where
  rest : List Char
  frames : List GroupFrame := []
  items : List Item := []
  branches : List Item := []
  flags : Flags
  groups : Nat := 0
  names : List (String × Nat) := []

def greatestDepth (items : List Item) : Nat := items.foldl (fun n item => max n item.depth) 0

/-- One item for a list of items, last first. -/
def joinItems (items : List Item) : Item :=
  match items with
  | [] => { pattern := .empty }
  | [item] => item
  | _ => ⟨.concatAll (items.reverse.map (·.pattern)), 1 + greatestDepth items, true⟩

/-- One item for the branches of a group, last first. -/
def joinBranches (branches : List Item) : Item :=
  match branches with
  | [] => { pattern := .empty }
  | [branch] => branch
  | _ => ⟨.alternateAll (branches.reverse.map (·.pattern)), 1 + greatestDepth branches, true⟩

/-- A character of a group name; the first one has fewer choices. -/
def isNameChar (first : Bool) (c : Char) : Bool :=
  if first then c == '_' || isAlphabetic c
  else c == '_' || c == '.' || c == '[' || c == ']' || isAlphanumeric c

namespace Reading

/-- Adds an item to the innermost group. -/
def push (r : Reading) (rest : List Char) (item : Item) : Reading :=
  { r with rest, items := item :: r.items }

/-- Adds an unnested pattern to the innermost group. -/
def add (r : Reading) (rest : List Char) (pattern : Pattern) : Reading :=
  r.push rest { pattern }

/-- What is read so far of the innermost group. -/
def body (r : Reading) : Item := joinBranches (joinItems r.items :: r.branches)

/-- Begins another branch of the innermost group. -/
def branch (r : Reading) (rest : List Char) : Reading :=
  { r with rest, items := [], branches := joinItems r.items :: r.branches }

/-- Opens a group. -/
def openGroup (r : Reading) (rest : List Char) (number : Option Nat) (flags : Flags) : Reading :=
  { r with
    rest, flags, items := [], branches := []
    frames := ⟨r.items, r.branches, number, r.flags⟩ :: r.frames }

/-- Opens a group that remembers what it matches. -/
def openNumbered (r : Reading) (rest : List Char) : Reading :=
  { r.openGroup rest (some (r.groups + 1)) r.flags with groups := r.groups + 1 }

/-- Opens a group with a name, which ends at `>`. -/
def openNamed (r : Reading) (cs : List Char) : Option Reading :=
  match cs.span (· != '>') with
  | (first :: more, _ :: rest) =>
    let name := String.ofList (first :: more)
    if isNameChar true first && more.all (isNameChar false) && !r.names.any (·.1 == name) then
      some { r.openNumbered rest with names := (name, r.groups + 1) :: r.names }
    else none
  | _ => none

/-- Reads what follows `(?`: flags for the rest of the group, or flags for a group of its own. -/
def openFlags (r : Reading) (cs : List Char) : Option Reading := do
  let (letters, rest) := cs.span fun c => c != ':' && c != ')'
  let flags ← r.flags.switchAll? letters
  match rest with
  | ':' :: rest => some (r.openGroup rest none flags)
  | _ :: rest =>
    guard !letters.isEmpty
    some { r.push rest { pattern := .empty, repeatable := false } with flags }
  | [] => none

/-- Reads what follows an opening parenthesis. -/
def openParenthesis (r : Reading) (cs : List Char) : Option Reading :=
  match r.flags.skip cs with
  | '?' :: '=' :: _ | '?' :: '!' :: _ | '?' :: '<' :: '=' :: _ | '?' :: '<' :: '!' :: _ => none
  | '?' :: 'P' :: '<' :: rest | '?' :: '<' :: rest => r.openNamed rest
  | '?' :: rest => r.openFlags rest
  | rest => some (r.openNumbered rest)

/-- Closes the innermost group. -/
def closeGroup (r : Reading) (rest : List Char) : Option Reading :=
  match r.frames with
  | [] => none
  | frame :: frames =>
    let body := r.body
    let pattern :=
      match frame.number with
      | some number => .group number body.pattern
      | none => body.pattern
    some { r with
      rest, frames
      items := ⟨pattern, 1 + body.depth, true⟩ :: frame.items
      branches := frame.branches
      flags := frame.flags }

/-- Repeats the last item. A question mark after the counts reverses the preference. -/
def repeatLast (r : Reading) (least : Nat) (most : Option Nat) (cs : List Char) :
    Option Reading :=
  match r.items with
  | [] => none
  | item :: items =>
    let (lazily, rest) : Bool × List Char :=
      match cs with
      | '?' :: rest => (true, rest)
      | _ => (false, cs)
    if item.repeatable then
      let pattern := .repetition least most (lazily == r.flags.swapGreed) item.pattern
      some { r with rest, items := ⟨pattern, 1 + item.depth, true⟩ :: items }
    else none

/-- The set of one literal character. -/
def literalSet (flags : Flags) (c : Char) : CharSet := foldCase flags (CharSet.single c)

/-- The set of the point: all characters but those that end a line. -/
def anySet (flags : Flags) : CharSet :=
  if flags.dotAll then CharSet.all
  else if flags.crlf then fun c => c != '\r' && c != '\n'
  else fun c => c != '\n'

/-- The characters of words, for the conditions on word boundaries. -/
def wordSet (flags : Flags) : CharSet :=
  if flags.unicode then CharSet.word else fun c => c.isAlphanum || c == '_'

/-- The condition of a caret. -/
def caret (flags : Flags) : Assertion :=
  if !flags.multiLine then .textStart else if flags.crlf then .lineStartCrlf else .lineStart

/-- The condition of a dollar sign. -/
def dollar (flags : Flags) : Assertion :=
  if !flags.multiLine then .textEnd else if flags.crlf then .lineEndCrlf else .lineEnd

/-- Reads the next part of the pattern. -/
def step (r : Reading) (c : Char) (rest : List Char) : Option Reading :=
  let flags := r.flags
  let assertion (a : Assertion) := Pattern.assertion a (wordSet flags)
  match c with
  | '(' => r.openParenthesis rest
  | ')' => r.closeGroup rest
  | '|' => some (r.branch rest)
  | '[' =>
    let (negated, items, cs) := openClass flags rest
    (readClass flags (cs.length + 1) [.bracket [] negated] items cs).map fun (item, rest) =>
      r.push rest ⟨.one item.set, item.depth, true⟩
  | '?' => r.repeatLast 0 (some 1) rest
  | '*' => r.repeatLast 0 none rest
  | '+' => r.repeatLast 1 none rest
  | '\x7b' =>
    (readCounts flags rest).bind fun (least, most, rest) =>
      r.repeatLast least most (flags.skip rest)
  | '\\' =>
    (readEscape flags rest).map fun (escaped, rest) =>
      match escaped with
      | .literal c => r.add rest (.one (literalSet flags c))
      | .set s => r.add rest (.one s)
      | .assertion a => r.add rest (assertion a)
  | '.' => if flags.unicode then some (r.add rest (.one (anySet flags))) else none
  | '^' => some (r.add rest (assertion (caret flags)))
  | '$' => some (r.add rest (assertion (dollar flags)))
  | _ => some (r.add rest (.one (literalSet flags c)))

/-- Reads to the end of the pattern. -/
def run : (fuel : Nat) → Reading → Option Reading
  | 0, _ => none
  | fuel + 1, r =>
    match r.flags.skip r.rest with
    | [] => some r
    | c :: rest =>
      match r.step c rest with
      | some next => run fuel next
      | none => none

end Reading

/-- The depth of nesting that a pattern may have. -/
def nestLimit : Nat := 250

/-- Reads a regular expression. -/
def Expression.read? (flags : Flags) (text : String) : Option Expression := do
  let cs := text.toList
  let r ← Reading.run (cs.length + 1) { rest := cs, flags }
  guard r.frames.isEmpty
  let body := r.body
  guard (body.depth ≤ nestLimit)
  some ⟨body.pattern, r.groups, r.names⟩

end Schematron.Regex
