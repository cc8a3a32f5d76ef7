import Schematron.Xml.Attributes
import Schematron.Xml.Document
import Schematron.Xml.Reference
import Schematron.Text.Blank

/-!
# Reading documents

The units of a text are read from left to right into a document that grows from the top down, so
its nodes are in document order. Names are resolved against the declarations of the open elements.
The first fault in the text is the one reported.
-/

namespace Schematron.Xml

/-! ## Scopes -/

/-- The declarations that hold at a place, the innermost first. -/
abbrev Scope := List Declaration

namespace Scope

/-- The namespace that a prefix, or no prefix, stands for. -/
def lookup? (scope : Scope) (pre : Option String) : Option String :=
  (scope.find? (·.pre == pre)).map (·.uri)

/-- Splits a written name at its first colon. -/
def splitName (raw : List Char) : Option String × String :=
  match Text.cutAt? (· == ':') raw with
  | some (pre, localPart) => (some (String.ofList pre), String.ofList localPart)
  | none => (none, String.ofList raw)

/-- Resolves a written name. Without a prefix an element takes the default namespace and an
attribute none; an empty namespace is none. Fails with a prefix that nothing declares. -/
def resolve (scope : Scope) (isElement : Bool) (raw : List Char) : Except String Name :=
  let (pre, localPart) := splitName raw
  let name (uri : Option String) : Name := ⟨pre, localPart, uri.filter (!·.isEmpty)⟩
  match pre with
  | some "xml" => .ok (name (some xmlNamespace))
  | some p =>
    match scope.lookup? pre with
    | some uri => .ok (name (some uri))
    | none => .error p
  | none => .ok (name (if isElement then scope.lookup? none else none))

end Scope

/-! ## Growing a document -/

/-- An element whose end tag is still to come. -/
structure OpenElement where
  node : NodeId
  name : List Char
  scope : Scope

/-- A document that is being read: the open elements, the innermost first, and whether the
document element has begun. -/
structure Growth where
  doc : Document := .empty
  opened : List OpenElement := []
  rooted : Bool := false

/-- The attributes of a tag with their references replaced: keys and values. -/
def tagAttributes (position : Nat) (content : List Char) :
    Except Fault (List (List Char × String)) := do
  let (written, fault) := Attributes.read content
  let attributes ← written.mapM fun a =>
    match Reference.unescape a.value with
    | .ok value => .ok (a.key, String.ofList value)
    | .error cause => .error (Fault.malformed position (.valueReference cause))
  match fault with
  | some cause => .error (.malformed position (.attribute cause))
  | none => .ok attributes

/-- The declaration that an attribute makes, if it makes one. -/
def declaration? (key : List Char) (value : String) : Option Declaration :=
  if key == "xmlns".toList then some ⟨none, value⟩
  else (Text.after? "xmlns:" key).map fun pre => ⟨some (String.ofList pre), value⟩

namespace Growth

/-- The node that new content goes to. -/
def target (g : Growth) : NodeId :=
  match g.opened with
  | innermost :: _ => innermost.node
  | [] => Document.rootNode

def scope (g : Growth) : Scope :=
  match g.opened with
  | innermost :: _ => innermost.scope
  | [] => []

/-- Adds the element of a start tag or empty tag, and opens it. -/
def openElement (g : Growth) (position : Nat) (content : List Char) : Except Fault Growth := do
  if g.opened.isEmpty && g.rooted then .error .multipleRoots
  let attributes ← tagAttributes position content
  let declared := attributes.filterMap fun (key, value) => declaration? key value
  let plain := attributes.filter fun (key, value) => (declaration? key value).isNone
  let scope : Scope := declared.reverse ++ g.scope
  let raw := Attributes.nameOf content
  let resolve (isElement : Bool) (written : List Char) : Except Fault Name :=
    match scope.resolve isElement written with
    | .ok name => .ok name
    | .error pre => .error (.unboundPrefix pre (String.ofList raw))
  let name ← resolve true raw
  let (id, doc) := g.doc.appendElement g.target name
  let doc := declared.foldl (·.declare id ·) doc
  let doc ← plain.foldlM (fun doc (key, value) => do
    let name ← resolve false key
    .ok (doc.setAttribute id name value).2) doc
  .ok { doc, opened := ⟨id, raw, scope⟩ :: g.opened, rooted := true }

/-- Closes the innermost element. -/
def closeElement (g : Growth) : Growth := { g with opened := g.opened.tail }

/-- Closes the element that an end tag names. -/
def endElement (g : Growth) (position : Nat) (name : List Char) : Except Fault Growth :=
  let fail (cause : Malformation) := .error (.malformed position cause)
  match g.opened with
  | [] => fail (.endTagUnmatched (String.ofList name))
  | innermost :: _ =>
    if innermost.name == name then .ok g.closeElement
    else fail (.endTagMismatch (String.ofList innermost.name) (String.ofList name))

/-- Adds text to the innermost element. Outside of all elements only blanks may stand. -/
def addText (g : Growth) (position : Nat) (text : String) : Except Fault Growth :=
  match g.opened with
  | innermost :: _ => .ok { g with doc := (g.doc.appendText innermost.node text).2 }
  | [] => if Text.allBlank text then .ok g else .error (.malformed position .textOutsideRoot)

/-- Adds what a unit of markup stands for. -/
def add (g : Growth) (located : Markup.Located) : Except Fault Growth :=
  match located.unit with
  | .text raw =>
    match Reference.unescape raw with
    | .ok text => g.addText located.position (String.ofList text)
    | .error cause => .error (.malformed located.position (.textReference cause))
  | .cdata content => g.addText located.position (String.ofList content)
  | .comment content =>
    .ok { g with doc := (g.doc.appendComment g.target (String.ofList content)).2 }
  | .startTag content => g.openElement located.position content
  | .emptyTag content => (g.openElement located.position content).map closeElement
  | .endTag name => g.endElement located.position name

/-- The document, if it is complete. -/
def finish (g : Growth) : Except Fault Document :=
  match g.opened with
  | innermost :: _ => .error (.unclosedElement (String.ofList innermost.name))
  | [] => if g.rooted then .ok g.doc else .error .noRoot

end Growth

/-! ## Reading -/

namespace Document

/-- The text without the byte order mark it begins with, if it does. -/
def dropMark (cs : List Char) : List Char :=
  match cs with
  | '\uFEFF' :: rest => rest
  | _ => cs

/-- Reads a document. -/
def read (cs : List Char) : Except Fault Document := do
  let (units, fault) := Markup.units cs
  let g ← units.foldlM Growth.add {}
  match fault with
  | some (position, cause) => .error (.malformed position cause)
  | none => g.finish

/-- Reads a document from a text, whose byte order mark does not count. -/
def parse (text : String) : Except Fault Document := read (dropMark text.toList)

/-- Reads a document from bytes in UTF-8. A second byte order mark does not count either. -/
def parseBytes (bytes : ByteArray) : Except Fault Document :=
  match String.fromUTF8? bytes with
  | some text => read (dropMark (dropMark text.toList))
  | none => .error .notUtf8

end Document

end Schematron.Xml
