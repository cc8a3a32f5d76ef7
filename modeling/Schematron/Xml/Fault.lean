/-!
# Faults of XML texts

Why a text is not a document, each cause with what its message shows.
-/

namespace Schematron.Xml

/-- Why a reference in text or in an attribute value has no meaning. Positions are byte offsets
in the raw text around the reference. -/
inductive ReferenceFault where
  | unterminated (start stop : Nat)
  | unknownEntity (start stop : Nat) (name : String)
  | zeroCharacter
  | invalidCodepoint (code : Nat)
  | numberTooLarge
  | invalidDigit
  | emptyNumber
  | numberSign
  deriving DecidableEq, Repr

/-- Why the attributes of a tag cannot be read. Positions are byte offsets from the name on. -/
inductive AttributeFault where
  | equalsMissing (position : Nat)
  | valueMissing (position : Nat)
  | valueUnquoted (position : Nat)
  | quoteMissing (position : Nat) (quote : Char)
  | duplicated (position earlier : Nat)
  deriving DecidableEq, Repr

/-- What is wrong with the markup at a position. -/
inductive Malformation where
  | unknownMarkup
  | unclosedTag
  | unclosedComment
  | unclosedCData
  | unclosedDoctype
  | unclosedInstruction
  | unnamedDoctype
  | endTagMismatch (expected found : String)
  | endTagUnmatched (found : String)
  | attribute (cause : AttributeFault)
  | textReference (cause : ReferenceFault)
  | valueReference (cause : ReferenceFault)
  | textOutsideRoot
  deriving DecidableEq, Repr

/-- Why a text is not a document. -/
inductive Fault where
  | malformed (position : Nat) (cause : Malformation)
  | unboundPrefix (pre name : String)
  | unclosedElement (name : String)
  | multipleRoots
  | noRoot
  | notUtf8
  deriving DecidableEq, Repr

/-! ## Messages -/

namespace ReferenceFault

def message : ReferenceFault → String
  | unterminated start stop =>
    s!"Error while escaping character at range {start}..{stop}: Cannot find ';' after '&'"
  | unknownEntity start stop name => s!"at {start}..{stop}: unrecognized entity `{name}`"
  | zeroCharacter => "invalid character reference: 0x0 character is not permitted in XML"
  | invalidCodepoint code => s!"invalid character reference: `{code}` is not a valid codepoint"
  | numberTooLarge => "invalid character reference: number too large to fit in target type"
  | invalidDigit => "invalid character reference: invalid digit found in string"
  | emptyNumber => "invalid character reference: cannot parse integer from empty string"
  | numberSign => "invalid character reference: unexpected number sign"

end ReferenceFault

namespace AttributeFault

def message : AttributeFault → String
  | equalsMissing position =>
    s!"position {position}: attribute key must be directly followed by `=` or space"
  | valueMissing position => s!"position {position}: `=` must be followed by an attribute value"
  | valueUnquoted position =>
    s!"position {position}: attribute value must be enclosed in `\"` or `'`"
  | quoteMissing position quote =>
    s!"position {position}: missing closing quote `{quote}` in attribute value"
  | duplicated position earlier =>
    s!"position {position}: duplicated attribute, previous declaration at position {earlier}"

end AttributeFault

namespace Malformation

def message : Malformation → String
  | unknownMarkup => "syntax error: unknown or missed symbol in markup"
  | unclosedTag => "syntax error: tag not closed: `>` not found before end of input"
  | unclosedComment => "syntax error: comment not closed: `-->` not found before end of input"
  | unclosedCData => "syntax error: CDATA not closed: `]]>` not found before end of input"
  | unclosedDoctype => "syntax error: DOCTYPE not closed: `>` not found before end of input"
  | unclosedInstruction =>
    "syntax error: processing instruction or xml declaration not closed: " ++
      "`?>` not found before end of input"
  | unnamedDoctype =>
    "ill-formed document: `<!DOCTYPE>` declaration does not contain a name of a document type"
  | endTagMismatch expected found =>
    s!"ill-formed document: expected `</{expected}>`, but `</{found}>` was found"
  | endTagUnmatched found =>
    s!"ill-formed document: close tag `</{found}>` does not match any open tag"
  | .attribute cause => "Attribute error: " ++ cause.message
  | textReference cause => "Invalid text content: " ++ cause.message
  | valueReference cause => "Invalid attribute value: " ++ cause.message
  | textOutsideRoot => "Text outside of the root element"

end Malformation

namespace Fault

def message : Fault → String
  | malformed position cause => s!"XML syntax error at byte {position}: {cause.message}"
  | unboundPrefix pre name => s!"Unbound namespace prefix '{pre}' on <{name}>"
  | unclosedElement name => s!"Unclosed element <{name}> at end of input"
  | multipleRoots => "Document has more than one root element"
  | noRoot => "Document has no root element"
  | notUtf8 => "Document is not valid UTF-8"

end Fault

end Schematron.Xml
