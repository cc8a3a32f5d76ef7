import Schematron.Xml.Traversal

/-!
# Trees

A tree is a node with all that is below it, free of any document. Every part of a document has a
tree, and a tree can be grafted onto a document. Schema processing and the writer work on trees.
-/

namespace Schematron.Xml

/-- An element, text or comment with its content. -/
inductive Tree where
  | element (name : Name) (declarations : List Declaration) (attributes : List (Name × String))
      (children : List Tree)
  | text (value : String)
  | comment (value : String)
  deriving Repr, Inhabited

namespace Tree

/-- The name of an element. -/
def name? : Tree → Option Name
  | element name .. => some name
  | _ => none

def children : Tree → List Tree
  | element _ _ _ children => children
  | _ => []

def attributes : Tree → List (Name × String)
  | element _ _ attributes _ => attributes
  | _ => []

/-- The value of the attribute with this local name in no namespace. -/
def attribute? (tree : Tree) (localPart : String) : Option String :=
  (tree.attributes.find? fun (name, _) => name.uri.isNone && name.localPart == localPart).map (·.2)

/-- The tree is an element of this local name in this namespace. -/
def isElement (tree : Tree) (uri localPart : String) : Bool :=
  match tree with
  | element name .. => name.isIn uri localPart
  | _ => false

mutual

/-- The text in and below a tree; comments have none. -/
def stringValue : Tree → String
  | element _ _ _ children => stringValueOfAll children
  | text value => value
  | comment _ => ""

/-- The text in and below a list of trees. -/
def stringValueOfAll : List Tree → String
  | [] => ""
  | tree :: rest => stringValue tree ++ stringValueOfAll rest

end

end Tree

namespace Document

/-- The attributes of a node, with their values. -/
def attributeValues (doc : Document) (id : NodeId) : List (Name × String) :=
  (doc.attributes id).filterMap fun id =>
    match doc.kind id with
    | .attribute name value => some (name, value)
    | _ => none

/-- The tree at a node, which is cut at a depth. Only elements, texts and comments have one. -/
def treeWithin (doc : Document) : (depth : Nat) → NodeId → Option Tree
  | 0, _ => none
  | depth + 1, id =>
    match doc.kind id with
    | .element name declarations =>
      some (.element name declarations (doc.attributeValues id)
        ((doc.children id).filterMap (treeWithin doc depth)))
    | .text value => some (.text value)
    | .comment value => some (.comment value)
    | .document | .attribute .. => none

/-- The tree at a node. -/
def tree? (doc : Document) (id : NodeId) : Option Tree := doc.treeWithin doc.size id

/-- The trees of the children of a node. -/
def childTrees (doc : Document) (id : NodeId) : List Tree := (doc.children id).filterMap doc.tree?

/-- The trees of the children of the document node. -/
def forest (doc : Document) : List Tree := doc.childTrees rootNode

/-- Sets attributes one after the other. -/
def setAttributes (doc : Document) (element : NodeId) (attributes : List (Name × String)) :
    Document :=
  attributes.foldl (fun doc (name, value) => (doc.setAttribute element name value).2) doc

mutual

/-- Appends a tree below a node and answers the node that holds it; an empty text has none. -/
def graft (doc : Document) (parent : NodeId) : Tree → Option NodeId × Document
  | .element name declarations attributes children =>
    let (id, doc) := doc.appendElement parent name
    let doc := declarations.foldl (·.declare id ·) doc
    (some id, graftAll (doc.setAttributes id attributes) id children)
  | .text value => doc.appendText parent value
  | .comment value => (doc.appendComment parent value).map some id

/-- Appends trees below a node, in order. -/
def graftAll (doc : Document) (parent : NodeId) : List Tree → Document
  | [] => doc
  | tree :: rest => graftAll (doc.graft parent tree).2 parent rest

end

/-! ## Copies between documents -/

mutual

/-- The tree with every element declaring, after its own declarations, all those of `scope`
whose prefix it does not declare itself. -/
def inScope (scope : List Declaration) : Tree → Tree
  | .element name declarations attributes children =>
    let own := declarations.foldl
      (fun seen d => if seen.any (·.pre == d.pre) then seen else seen ++ [d]) []
    let scope := own ++ scope.filter fun d => !own.any (·.pre == d.pre)
    .element name scope attributes (allInScope scope children)
  | tree => tree

/-- Each tree of a list in a scope. -/
def allInScope (scope : List Declaration) : List Tree → List Tree
  | [] => []
  | tree :: rest => inScope scope tree :: allInScope scope rest

end

/-- The declarations that the ancestors of a node put in scope for it. -/
def outerScope (doc : Document) (id : NodeId) : List Declaration :=
  match doc.parent? id with
  | some parent => doc.namespacesInScope parent
  | none => []

/-- The attributes and the child trees of a node, ready to be put below another one: each element
declares all namespaces in scope for it. -/
def contents (doc : Document) (id : NodeId) : List (Name × String) × List Tree :=
  (doc.attributeValues id, allInScope (doc.namespacesInScope id) (doc.childTrees id))

/-- Copies the attributes and children of a node of `source` onto `target`. -/
def importContents (doc : Document) (target : NodeId) (source : Document) (id : NodeId) :
    Document :=
  let (attributes, trees) := source.contents id
  (doc.setAttributes target attributes).graftAll target trees

/-- Copies a node of `source` below `parent`: an attribute is set, a tree is appended, and of a
document node the children are appended. Answers the copy, if it is a single node. -/
def importNode (doc : Document) (parent : NodeId) (source : Document) (origin : NodeId) :
    Option NodeId × Document :=
  match source.kind origin with
  | .document => (none, doc.graftAll parent (source.contents origin).2)
  | .attribute name value => (doc.setAttribute parent name value).map some id
  | _ =>
    match source.tree? origin with
    | some tree => doc.graft parent (inScope (source.outerScope origin) tree)
    | none => (none, doc)

end Document

end Schematron.Xml
