import Schematron.Toml.Scalar

/-!
# Reading TOML

A document is read line by line: comments, headers, and pairs of a key and a value. A table is
defined once, by a header or by dotted keys, and never extended in the other way; tables and
arrays that are written as values are complete.
-/

namespace Schematron.Toml

/-! ## Keys -/

def isBareKeyChar (c : Char) : Bool := c.isAlphanum || c == '-' || c == '_'

/-- Reads one part of a key. -/
def readKeyPart (cs : List Char) : Option (String × List Char) :=
  match cs with
  | '"' :: rest => readBasic cs.length [] rest
  | '\'' :: rest => readLiteral rest
  | _ =>
    match cs.span isBareKeyChar with
    | ([], _) => none
    | (part, rest) => some (String.ofList part, rest)

/-- The number of parts that a key stays below, and the depth that nested values stay below. -/
def nestLimit : Nat := 80

/-- Reads a key: parts with points between them, and blanks around the parts. -/
def readKeyParts : (fuel : Nat) → (parts : List String) → List Char →
    Option (List String × List Char)
  | 0, _, _ => none
  | fuel + 1, parts, cs =>
    match readKeyPart (skipBlanks cs) with
    | none => none
    | some (part, rest) =>
      match skipBlanks rest with
      | '.' :: rest => readKeyParts fuel (part :: parts) rest
      | rest => some ((part :: parts).reverse, rest)

/-- Reads a key. -/
def readKey (cs : List Char) : Option (List String × List Char) :=
  readKeyParts (nestLimit - 1) [] cs

/-! ## Tables -/

/-- What a key of a table that is being read stands for. A table is implicit until a header
defines it, and dotted if dotted keys define it. An array of tables grows by headers. -/
inductive Entry where
  | value (v : Value)
  | table (implicit dotted : Bool) (entries : List (String × Entry))
  | tables (elements : List (List (String × Entry)))
  deriving Inhabited

abbrev Entries := List (String × Entry)

namespace Entries

/-- Puts an entry under a key, in the place of the one that has it. -/
def put (entries : Entries) (key : String) (entry : Entry) : Entries :=
  if (entries.lookup key).isSome then
    entries.map fun (k, e) => if k == key then (k, entry) else (k, e)
  else entries ++ [(key, entry)]

/-- Changes the table at a path. A table that is not there is made; it is dotted if the path is
that of a dotted key. In an array of tables the last one is meant. The change is told whether the
table it is made to is dotted. -/
def change (dotted : Bool) (f : Bool → Entries → Option Entries) :
    (path : List String) → (here : Bool) → Entries → Option Entries
  | [], here, entries => f here entries
  | key :: path, _, entries =>
    match entries.lookup key with
    | none => do
      let inner ← change dotted f path dotted []
      some (put entries key (.table true dotted inner))
    | some (.value _) => none
    | some (.table implicit innerDotted inner) =>
      if dotted && !implicit then none
      else do
        let inner ← change dotted f path innerDotted inner
        some (put entries key (.table implicit innerDotted inner))
    | some (.tables elements) =>
      match elements.getLast? with
      | none => none
      | some last => do
        let last ← change dotted f path false last
        some (put entries key (.tables (elements.dropLast ++ [last])))

/-- Defines the table of a header. -/
def defineTable (path : List String) (root : Entries) : Option Entries :=
  match path.getLast? with
  | none => none
  | some key =>
    change false (fun _ entries =>
      match entries.lookup key with
      | none => some (put entries key (.table false false []))
      | some (.table true false inner) => some (put entries key (.table false false inner))
      | some _ => none) path.dropLast false root

/-- Adds a table to the array of a header. -/
def defineElement (path : List String) (root : Entries) : Option Entries :=
  match path.getLast? with
  | none => none
  | some key =>
    change false (fun _ entries =>
      match entries.lookup key with
      | none => some (put entries key (.tables [[]]))
      | some (.tables elements) => some (put entries key (.tables (elements ++ [[]])))
      | some _ => none) path.dropLast false root

/-- Defines a key, which may be dotted, of a table. -/
def define (path : List String) (v : Value) (entries : Entries) : Option Entries :=
  match path.getLast? with
  | none => none
  | some key =>
    let folders := path.dropLast
    change true (fun here entries =>
      if here == folders.isEmpty || (entries.lookup key).isSome then none
      else some (put entries key (.value v))) folders false entries

end Entries

mutual

/-- The value of an entry. -/
def Entry.toValue : Entry → Value
  | .value v => v
  | .table _ _ entries => .table (entriesToValues entries)
  | .tables elements => .array (elementsToValues elements)

/-- The values of the entries of a table. -/
def entriesToValues : List (String × Entry) → List (String × Value)
  | [] => []
  | (key, entry) :: rest => (key, entry.toValue) :: entriesToValues rest

/-- The values of the tables of an array. -/
def elementsToValues : List (List (String × Entry)) → List Value
  | [] => []
  | entries :: rest => .table (entriesToValues entries) :: elementsToValues rest

end

/-! ## Values -/

/-- What is left after blanks, line ends and comments; none after a broken comment. -/
def skipLines : (fuel : Nat) → List Char → Option (List Char)
  | 0, cs => some cs
  | fuel + 1, cs =>
    match skipBlanks cs with
    | '#' :: rest => (newline? (skipComment ('#' :: rest))).bind (skipLines fuel)
    | cs =>
      match newline? cs with
      | some rest => skipLines fuel rest
      | none => some cs

/-- Reads a keyword. -/
def readWord (word : String) (v : Value) (cs : List Char) : Option (Value × List Char) :=
  if word.toList.isPrefixOf cs then some (v, cs.drop word.length) else none

mutual

/-- Reads a value, in which values are nested less deeply than `nest`. -/
def readValue : (fuel nest : Nat) → List Char → Option (Value × List Char)
  | 0, _, _ => none
  | fuel + 1, nest, cs =>
    match cs with
    | [] => none
    | c :: rest =>
      match c with
      | '"' | '\'' => (readString cs).map fun (s, rest) => (.string s, rest)
      | '[' => if nest ≤ 1 then none else readItems fuel (nest - 1) [] rest
      | '\x7b' =>
        if nest ≤ 1 then none
        else
          match skipBlanks rest with
          | '\x7d' :: rest => some (.table [], rest)
          | rest => readPairs fuel (nest - 1) [] rest
      | 't' => readWord "true" (.boolean true) cs
      | 'f' => readWord "false" (.boolean false) cs
      | _ => readDatetime cs <|> readNumber cs

/-- Reads the rest of an array, of which the items so far are given last first. -/
def readItems : (fuel nest : Nat) → List Value → List Char → Option (Value × List Char)
  | 0, _, _, _ => none
  | fuel + 1, nest, items, cs =>
    match skipLines cs.length cs with
    | none => none
    | some (']' :: rest) => some (.array items.reverse, rest)
    | some cs =>
      match readValue fuel nest cs with
      | none => none
      | some (item, rest) =>
        match skipLines rest.length rest with
        | some (',' :: rest) => readItems fuel nest (item :: items) rest
        | some (']' :: rest) => some (.array (item :: items).reverse, rest)
        | _ => none

/-- Reads the rest of a table between braces, of which the entries so far are given. -/
def readPairs : (fuel nest : Nat) → Entries → List Char → Option (Value × List Char)
  | 0, _, _, _ => none
  | fuel + 1, nest, entries, cs =>
    match readKey cs with
    | some (key, '=' :: rest) =>
      match readValue fuel nest (skipBlanks rest) with
      | none => none
      | some (v, rest) =>
        match Entries.define key v entries with
        | none => none
        | some entries =>
          match skipBlanks rest with
          | ',' :: rest => readPairs fuel nest entries rest
          | '\x7d' :: rest => some (.table (entriesToValues entries), rest)
          | _ => none
    | _ => none

end

/-! ## Documents -/

/-- What is left after the rest of a line, in which only a comment may stand. -/
def endLine? (cs : List Char) : Option (List Char) :=
  match skipComment (skipBlanks cs) with
  | [] => some []
  | rest => newline? rest

/-- Reads the lines of a document. `path` is that of the last header. -/
def readDocument : (fuel : Nat) → (path : List String) → Entries → List Char → Option Entries
  | 0, _, _, _ => none
  | fuel + 1, path, root, cs =>
    match skipBlanks cs with
    | [] => some root
    | '[' :: '[' :: rest =>
      match readKey rest with
      | some (key, ']' :: ']' :: rest) =>
        match root.defineElement key, endLine? rest with
        | some root, some rest => readDocument fuel key root rest
        | _, _ => none
      | _ => none
    | '[' :: rest =>
      match readKey rest with
      | some (key, ']' :: rest) =>
        match root.defineTable key, endLine? rest with
        | some root, some rest => readDocument fuel key root rest
        | _, _ => none
      | _ => none
    | cs =>
      match newline? (skipComment cs) with
      | some rest => readDocument fuel path root rest
      | none =>
        if (skipComment cs).isEmpty then some root
        else
          match readKey cs with
          | some (key, '=' :: rest) =>
            match readValue rest.length nestLimit (skipBlanks rest) with
            | none => none
            | some (v, rest) =>
              match root.change false (fun _ es => es.define key v) path false, endLine? rest with
              | some root, some rest => readDocument fuel path root rest
              | _, _ => none
          | _ => none

/-- Reads a document; a byte order mark at its beginning does not count. -/
def read (text : String) : Option Value :=
  let cs :=
    match text.toList with
    | '\uFEFF' :: rest => rest
    | cs => cs
  (readDocument (cs.length + 1) [] [] cs).map fun root => .table (entriesToValues root)

end Schematron.Toml
