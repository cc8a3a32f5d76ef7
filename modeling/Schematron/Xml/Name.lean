/-!
# Names and namespace declarations

A name has the prefix it was written with, a local part, and the namespace the prefix stood for.
Two names are the same expanded name when local part and namespace agree.
-/

namespace Schematron.Xml

/-- The namespace that the prefix `xml` always stands for. -/
def xmlNamespace : String := "http://www.w3.org/XML/1998/namespace"

/-- The name of an element or attribute. -/
structure Name where
  pre : Option String := none
  localPart : String
  uri : Option String := none
  deriving DecidableEq, Repr, Inhabited

namespace Name

/-- A name without prefix, in no namespace. -/
def plain (localPart : String) : Name := ⟨none, localPart, none⟩

/-- A name with a prefix that stands for a namespace. -/
def qualified (pre localPart uri : String) : Name := ⟨some pre, localPart, some uri⟩

/-- The name as it is written: the prefix, a colon and the local part. -/
def written (name : Name) : String :=
  match name.pre with
  | some pre => pre ++ ":" ++ name.localPart
  | none => name.localPart

/-- The name has this local part in this namespace. -/
def isIn (name : Name) (uri localPart : String) : Bool :=
  name.localPart == localPart && name.uri == some uri

/-- Equal as expanded names, whatever the prefixes. -/
def sameExpanded (a b : Name) : Bool := a.localPart == b.localPart && a.uri == b.uri

end Name

/-- A namespace declaration: the namespace that a prefix, or no prefix, stands for. An empty
namespace takes the meaning of the prefix away. -/
structure Declaration where
  pre : Option String
  uri : String
  deriving DecidableEq, Repr, Inhabited

end Schematron.Xml
