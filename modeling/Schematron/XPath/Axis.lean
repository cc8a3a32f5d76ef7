import Schematron.XPath.Expression
import Schematron.Xml.Traversal
import Std.Data.HashSet

/-!
# Axes and node tests

The nodes that a step reaches from a node, the nearest first, and what it asks of them.
-/

namespace Schematron.XPath

open Xml

namespace Axis

/-- The siblings before a node, the nearest first, and those after it. Attributes have none. -/
def siblings (doc : Document) (id : NodeId) : List NodeId × List NodeId :=
  if doc.isAttribute id then ([], [])
  else
    match doc.parent? id with
    | none => ([], [])
    | some above =>
      match (doc.children above).span (· != id) with
      | (before, _ :: after) => (before.reverse, after)
      | (_, []) => ([], [])

/-- The nodes after a node that are no attributes and not below it. -/
def followingNodes (doc : Document) (id : NodeId) : List NodeId :=
  let below := Std.HashSet.ofList (doc.descendants id)
  (List.range doc.size).filter fun n => id < n && !doc.isAttribute n && !below.contains n

/-- The document node is not among the nodes of the preceding axis. -/
def isDocument (doc : Document) (id : NodeId) : Bool :=
  match doc.kind id with
  | .document => true
  | _ => false

/-- The nodes before a node that are no attributes and not above it, the nearest first. -/
def precedingNodes (doc : Document) (id : NodeId) : List NodeId :=
  let above := Std.HashSet.ofList (doc.ancestors id)
  ((List.range doc.size).filter fun n =>
    n < id && !doc.isAttribute n && !above.contains n && !isDocument doc n).reverse

/-- The nodes on an axis from a node, the nearest first. -/
def nodes (doc : Document) (id : NodeId) : Axis → List NodeId
  | child => doc.children id
  | descendant => doc.descendants id
  | descendantOrSelf => id :: doc.descendants id
  | self => [id]
  | parent => (doc.parent? id).toList
  | ancestor => doc.ancestors id
  | ancestorOrSelf => id :: doc.ancestors id
  | .attribute => doc.attributes id
  | followingSibling => (siblings doc id).2
  | precedingSibling => (siblings doc id).1
  | following => followingNodes doc id
  | preceding => precedingNodes doc id

/-- The name of a node of the kind that the axis is for: of attributes on the attribute axis, of
elements on all others. -/
def principalName? (doc : Document) (axis : Axis) (id : NodeId) : Option Name :=
  match axis, doc.kind id with
  | .attribute, .attribute name _ => some name
  | .attribute, _ => none
  | _, .element name _ => some name
  | _, _ => none

end Axis

namespace NodeTest

/-- A node on an axis passes the test. -/
def accepts (doc : Document) (axis : Axis) (id : NodeId) : NodeTest → Bool
  | node => true
  | text => doc.isText id
  | comment => doc.isComment id
  | any => (axis.principalName? doc id).isSome
  | name uri localPart =>
    (axis.principalName? doc id).any fun n => n.localPart == localPart && n.uri == uri
  | inNamespace uri => (axis.principalName? doc id).any fun n => n.uri == some uri
  | anyNamespace localPart => (axis.principalName? doc id).any fun n => n.localPart == localPart

end NodeTest

end Schematron.XPath
