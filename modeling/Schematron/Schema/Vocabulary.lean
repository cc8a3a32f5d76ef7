import Schematron.Text.Blank
import Schematron.Xml.Tree

/-!
# The vocabulary of schemas

Elements of a schema stand in one of two namespaces, and are told apart by their local names. The
value of an attribute is trimmed, and a blank one counts as none.
-/

namespace Schematron.Schema

open Xml (Tree)

/-- The namespace of schemas. -/
def schemaNamespace : String := "http://purl.oclc.org/dsdl/schematron"

/-- The namespace of schemas of an earlier version of the language. -/
def earlierNamespace : String := "http://www.ascc.net/xml/schematron"

/-- An element of a schema, with attributes that are in no namespace. -/
def schemaElement (localPart : String) (attributes : List (String × String))
    (children : List Tree) : Tree :=
  .element { localPart, uri := some schemaNamespace } []
    (attributes.map fun (name, value) => (.plain name, value)) children

end Schematron.Schema

namespace Schematron.Xml.Tree

open Schema

/-- The local name of a schema element. -/
def schemaName? (tree : Tree) : Option String :=
  match tree.name? with
  | some name =>
    if name.uri == some schemaNamespace || name.uri == some earlierNamespace then
      some name.localPart
    else none
  | none => none

/-- The tree is the schema element of this local name. -/
def isSchemaElement (localPart : String) (tree : Tree) : Bool :=
  tree.schemaName? == some localPart

/-- The tree is an element of any namespace. -/
def isAnyElement (tree : Tree) : Bool := tree.name?.isSome

/-- The schema elements of a local name among the children. -/
def schemaChildren (tree : Tree) (localPart : String) : List Tree :=
  tree.children.filter (isSchemaElement localPart)

/-- The trimmed value of an attribute, if it is not blank. -/
def setting? (tree : Tree) (localPart : String) : Option String :=
  ((tree.attribute? localPart).map Text.trim).filter (!·.isEmpty)

/-- The element is marked as abstract. -/
def isAbstract (tree : Tree) : Bool := tree.setting? "abstract" == some "true"

mutual

/-- A tree with all trees below it, each before those below it. -/
def preorder : Tree → List Tree
  | element name declarations attributes children =>
    element name declarations attributes children :: preorderOfAll children
  | tree => [tree]

/-- Trees with all trees below them. -/
def preorderOfAll : List Tree → List Tree
  | [] => []
  | tree :: rest => preorder tree ++ preorderOfAll rest

end

/-- The trees below a tree, each before those below it. -/
def descendants (tree : Tree) : List Tree := preorderOfAll tree.children

end Schematron.Xml.Tree

namespace Schematron.Xml.Document

/-- A document of the given trees below its document node. -/
def ofForest (trees : List Tree) : Document := empty.graftAll rootNode trees

/-- The tree of the document element. -/
def documentTree? (doc : Document) : Option Tree := doc.forest.find? (·.isAnyElement)

/-- The tree at a node, with all namespaces in scope there declared on its top element. -/
def scopedTree? (doc : Document) (id : NodeId) : Option Tree :=
  (doc.tree? id).map fun
    | .element name _ attributes children =>
      .element name (doc.namespacesInScope id) attributes children
    | tree => tree

/-- The trees of the children of a node, each with the namespaces in scope. -/
def scopedChildren (doc : Document) (id : NodeId) : List Tree :=
  (doc.children id).filterMap doc.scopedTree?

end Schematron.Xml.Document
