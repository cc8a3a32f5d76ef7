import Schematron.Text.Unicode.Casing
import Schematron.Text.Unicode.Property
import Schematron.Text.Unicode.Script

/-!
# Sets of characters

A set of characters is its membership test. Classes of patterns are built from ranges and from
named properties by the operations of sets.
-/

namespace Schematron.Regex

open Unicode

/-- A set of characters. -/
abbrev CharSet := Char → Bool

namespace CharSet

/-! ## Operations -/

def none : CharSet := fun _ => false

def all : CharSet := fun _ => true

def single (c : Char) : CharSet := fun d => d == c

/-- The characters from `first` to `last`, both included. -/
def range (first last : Char) : CharSet := fun c => first ≤ c && c ≤ last

def complement (s : CharSet) : CharSet := fun c => !s c

def union (s t : CharSet) : CharSet := fun c => s c || t c

def inter (s t : CharSet) : CharSet := fun c => s c && t c

def diff (s t : CharSet) : CharSet := fun c => s c && !t c

def symmDiff (s t : CharSet) : CharSet := fun c => s c != t c

/-- The set with all characters that differ from one of its members in case only. -/
def folded (s : CharSet) : CharSet := fun c => s c || (caseVariants c).any s

/-- The set with the other case of its basic Latin letters. -/
def foldedAscii (s : CharSet) : CharSet := fun c => s c || s c.toUpper || s c.toLower

/-! ## Classes of one letter -/

def isAscii : CharSet := fun c => c.toNat < 0x80

/-- Decimal digits of all scripts. -/
def digit : CharSet := fun c => Category.of c == .decimalNumber

def space : CharSet := isBlank

def word : CharSet := isWordCharacter

/-! ## Classes of basic Latin -/

/-- The classes that are written `[:name:]`. -/
def ascii? (name : String) : Option CharSet :=
  let upper := range 'A' 'Z'
  let lower := range 'a' 'z'
  let digit := range '0' '9'
  let alpha := union upper lower
  let alnum := union alpha digit
  let graph := range '!' '~'
  match name with
  | "alnum" => some alnum
  | "alpha" => some alpha
  | "ascii" => some isAscii
  | "blank" => some (union (single '\t') (single ' '))
  | "cntrl" => some fun c => c.toNat < 0x20 || c.toNat == 0x7F
  | "digit" => some digit
  | "graph" => some graph
  | "lower" => some lower
  | "print" => some (range ' ' '~')
  | "punct" => some (diff graph alnum)
  | "space" => some fun c => (9 ≤ c.toNat && c.toNat ≤ 13) || c == ' '
  | "upper" => some upper
  | "word" => some (union alnum (single '_'))
  | "xdigit" => some (union digit (union (range 'A' 'F') (range 'a' 'f')))
  | _ => Option.none

/-! ## Named properties -/

/-- A name of a property or value without case, spaces, hyphens, low lines, characters beyond
basic Latin and a leading `is`. -/
def normalizeName (name : List Char) : String :=
  let lower := name.map Char.toLower
  let body :=
    match lower with
    | 'i' :: 's' :: rest => rest
    | _ => lower
  String.ofList (body.filter fun c => c.toNat < 0x80 && c != ' ' && c != '_' && c != '-')

def ofCategories (categories : List Category) : CharSet :=
  fun c => categories.contains (Category.of c)

/-- The general categories, and the groups of them, by their normalized names. -/
def category? (name : String) : Option CharSet :=
  let set (categories : List Category) := some (ofCategories categories)
  match name with
  | "any" => some all
  | "ascii" => some isAscii
  | "assigned" => some (complement (ofCategories [.unassigned]))
  | "l" | "letter" => some isLetter
  | "lc" | "casedletter" => set [.uppercaseLetter, .lowercaseLetter, .titlecaseLetter]
  | "lu" | "uppercaseletter" => set [.uppercaseLetter]
  | "ll" | "lowercaseletter" => set [.lowercaseLetter]
  | "lt" | "titlecaseletter" => set [.titlecaseLetter]
  | "lm" | "modifierletter" => set [.modifierLetter]
  | "lo" | "otherletter" => set [.otherLetter]
  | "m" | "mark" | "combiningmark" => some isMark
  | "mn" | "nonspacingmark" => set [.nonspacingMark]
  | "mc" | "spacingmark" => set [.spacingMark]
  | "me" | "enclosingmark" => set [.enclosingMark]
  | "n" | "number" => set [.decimalNumber, .letterNumber, .otherNumber]
  | "nd" | "decimalnumber" | "digit" => set [.decimalNumber]
  | "nl" | "letternumber" => set [.letterNumber]
  | "no" | "othernumber" => set [.otherNumber]
  | "p" | "punctuation" | "punct" =>
    set [.connectorPunctuation, .dashPunctuation, .openPunctuation, .closePunctuation,
      .initialPunctuation, .finalPunctuation, .otherPunctuation]
  | "pc" | "connectorpunctuation" => set [.connectorPunctuation]
  | "pd" | "dashpunctuation" => set [.dashPunctuation]
  | "ps" | "openpunctuation" => set [.openPunctuation]
  | "pe" | "closepunctuation" => set [.closePunctuation]
  | "pi" | "initialpunctuation" => set [.initialPunctuation]
  | "pf" | "finalpunctuation" => set [.finalPunctuation]
  | "po" | "otherpunctuation" => set [.otherPunctuation]
  | "s" | "symbol" => set [.mathSymbol, .currencySymbol, .modifierSymbol, .otherSymbol]
  | "sm" | "mathsymbol" => set [.mathSymbol]
  | "sc" | "currencysymbol" => set [.currencySymbol]
  | "sk" | "modifiersymbol" => set [.modifierSymbol]
  | "so" | "othersymbol" => set [.otherSymbol]
  | "z" | "separator" => set [.spaceSeparator, .lineSeparator, .paragraphSeparator]
  | "zs" | "spaceseparator" => set [.spaceSeparator]
  | "zl" | "lineseparator" => set [.lineSeparator]
  | "zp" | "paragraphseparator" => set [.paragraphSeparator]
  | "c" | "other" => set [.control, .format, .surrogate, .privateUse, .unassigned]
  | "cc" | "control" | "cntrl" => set [.control]
  | "cf" | "format" => set [.format]
  | "cs" | "surrogate" => set [.surrogate]
  | "co" | "privateuse" => set [.privateUse]
  | "cn" | "unassigned" => set [.unassigned]
  | _ => Option.none

/-- The scripts by their normalized names. -/
def script? (name : String) : Option CharSet :=
  (scripts.find? fun entry => entry.1.any fun known => normalizeName known.toList == name).map
    fun entry => entry.2.contains

/-- The properties with two values, by their normalized names. -/
def binary? (name : String) : Option CharSet :=
  match name with
  | "alphabetic" | "alpha" => some isAlphabetic
  | "lowercase" | "lower" => some isLowercase
  | "uppercase" | "upper" => some isUppercase
  | "cased" => some isCased
  | "caseignorable" | "ci" => some isCaseIgnorable
  | "whitespace" | "space" | "wspace" => some isBlank
  | "math" => some fun c => Category.of c == .mathSymbol || otherMath.contains c
  | "dash" => some fun c => Category.of c == .dashPunctuation || otherDash.contains c
  | "hexdigit" | "hex" => some hexDigit.contains
  | "asciihexdigit" | "ahex" => some fun c => c.toNat < 0x80 && hexDigit.contains c
  | "ideographic" | "ideo" => some ideographic.contains
  | "emoji" => some emoji.contains
  | "graphemeextend" | "grext" => some isGraphemeExtend
  | _ => Option.none

/-- The set that a single name stands for: a property, else a general category, else a script. -/
def named? (name : List Char) : Option CharSet :=
  let name := normalizeName name
  binary? name <|> category? name <|> script? name

/-- The set of the characters that have a value of a property. -/
def valued? (property value : List Char) : Option CharSet :=
  let value := normalizeName value
  match normalizeName property with
  | "gc" | "generalcategory" => category? value
  | "sc" | "script" | "scx" | "scriptextensions" => script? value
  | _ => Option.none

end CharSet

end Schematron.Regex
