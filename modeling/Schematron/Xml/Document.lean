import Schematron.Xml.Name

/-!
# Documents

A document is an arena of nodes. A node is identified by its index; node 0 is the document node,
and each new node takes the next index. A document that is built from the top down, an element
before its attributes and these before its children, has its nodes in document order.

An index that names no node reads as a document node without children.
-/

namespace Schematron.Xml

/-- The index of a node in its document. -/
abbrev NodeId := Nat

/-- What a node is, with what it carries of its own. -/
inductive NodeKind where
  | document
  | element (name : Name) (declarations : List Declaration)
  | attribute (name : Name) (value : String)
  | text (value : String)
  | comment (value : String)
  deriving DecidableEq, Repr, Inhabited

/-- A node with its links. -/
structure Node where
  kind : NodeKind
  parent : Option NodeId := none
  children : Array NodeId := #[]
  attributes : Array NodeId := #[]
  deriving DecidableEq, Repr, Inhabited

/-- An XML document. -/
structure Document where
  nodes : Array Node
  deriving DecidableEq, Repr, Inhabited

namespace Document

/-! ## Reading -/

/-- The document node. -/
def rootNode : NodeId := 0

/-- A document of the document node alone. -/
def empty : Document := ⟨#[{ kind := .document }]⟩

/-- The number of nodes. -/
def size (doc : Document) : Nat := doc.nodes.size

/-- The node at an index. -/
def node (doc : Document) (id : NodeId) : Node := doc.nodes[id]?.getD { kind := .document }

def kind (doc : Document) (id : NodeId) : NodeKind := (doc.node id).kind

def parent? (doc : Document) (id : NodeId) : Option NodeId := (doc.node id).parent

def children (doc : Document) (id : NodeId) : List NodeId := (doc.node id).children.toList

def attributes (doc : Document) (id : NodeId) : List NodeId := (doc.node id).attributes.toList

def isElement (doc : Document) (id : NodeId) : Bool :=
  match doc.kind id with
  | .element .. => true
  | _ => false

def isAttribute (doc : Document) (id : NodeId) : Bool :=
  match doc.kind id with
  | .attribute .. => true
  | _ => false

def isText (doc : Document) (id : NodeId) : Bool :=
  match doc.kind id with
  | .text _ => true
  | _ => false

def isComment (doc : Document) (id : NodeId) : Bool :=
  match doc.kind id with
  | .comment _ => true
  | _ => false

/-- The name of an element or attribute. -/
def name? (doc : Document) (id : NodeId) : Option Name :=
  match doc.kind id with
  | .element name _ | .attribute name _ => some name
  | _ => none

def elementChildren (doc : Document) (id : NodeId) : List NodeId :=
  (doc.children id).filter doc.isElement

/-- The first element below the document node. -/
def documentElement? (doc : Document) : Option NodeId := (doc.elementChildren rootNode).head?

/-- The value of the attribute with this local name in no namespace. -/
def attribute? (doc : Document) (element : NodeId) (localPart : String) : Option String :=
  (doc.attributes element).findSome? fun id =>
    match doc.kind id with
    | .attribute name value =>
      if name.uri.isNone && name.localPart == localPart then some value else none
    | _ => none

/-! ## Building -/

/-- Adds a node below `parent` that no list of the parent names yet. -/
def push (doc : Document) (parent : NodeId) (kind : NodeKind) : NodeId × Document :=
  (doc.size, ⟨doc.nodes.push { kind, parent := some parent }⟩)

/-- Adds a node as the last child of `parent`. -/
def pushChild (doc : Document) (parent : NodeId) (kind : NodeKind) : NodeId × Document :=
  let (id, doc) := doc.push parent kind
  (id, ⟨doc.nodes.modify parent fun n => { n with children := n.children.push id }⟩)

/-- Replaces what a node carries of its own. -/
def setKind (doc : Document) (id : NodeId) (kind : NodeKind) : Document :=
  ⟨doc.nodes.modify id fun n => { n with kind := kind }⟩

/-- Adds an element without declarations, attributes and children. -/
def appendElement (doc : Document) (parent : NodeId) (name : Name) : NodeId × Document :=
  doc.pushChild parent (.element name [])

/-- Adds a declaration to an element; the first declaration of a prefix stays. -/
def declare (doc : Document) (element : NodeId) (declaration : Declaration) : Document :=
  match doc.kind element with
  | .element name declarations =>
    if declarations.any (·.pre == declaration.pre) then doc
    else doc.setKind element (.element name (declarations ++ [declaration]))
  | _ => doc

/-- The attribute of an element with this expanded name. -/
def findAttribute? (doc : Document) (element : NodeId) (name : Name) : Option NodeId :=
  (doc.attributes element).find? fun id =>
    match doc.kind id with
    | .attribute other _ => other.sameExpanded name
    | _ => false

/-- Sets an attribute. One with the same expanded name keeps its place and its written name and
takes the new value. -/
def setAttribute (doc : Document) (element : NodeId) (name : Name) (value : String) :
    NodeId × Document :=
  match doc.findAttribute? element name with
  | some id =>
    match doc.kind id with
    | .attribute old _ => (id, doc.setKind id (.attribute old value))
    | _ => (id, doc)
  | none =>
    let (id, doc) := doc.push element (.attribute name value)
    (id, ⟨doc.nodes.modify element fun n => { n with attributes := n.attributes.push id }⟩)

/-- Adds text at the end of `parent`: to its last child if that is a text, else as a new child.
Empty text adds nothing. -/
def appendText (doc : Document) (parent : NodeId) (text : String) : Option NodeId × Document :=
  if text.isEmpty then (none, doc)
  else
    match (doc.node parent).children.back? with
    | some last =>
      match doc.kind last with
      | .text before => (some last, doc.setKind last (.text (before ++ text)))
      | _ => (doc.pushChild parent (.text text)).map some id
    | none => (doc.pushChild parent (.text text)).map some id

def appendComment (doc : Document) (parent : NodeId) (text : String) : NodeId × Document :=
  doc.pushChild parent (.comment text)

end Document

end Schematron.Xml
