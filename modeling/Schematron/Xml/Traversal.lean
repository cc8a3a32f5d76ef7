import Schematron.Xml.Document

/-!
# Walking a document

Descendants, ancestors, string values and the namespaces in scope. Every walk is bounded by the
number of nodes, which no walk along the links of a document exceeds.
-/

namespace Schematron.Xml.Document

/-! ## Downwards -/

/-- The nodes on a stack, each followed by the nodes below it that `below` lists, in order. -/
def walk (below : NodeId → List NodeId) : (fuel : Nat) → (stack found : List NodeId) → List NodeId
  | 0, _, found => found.reverse
  | _ + 1, [], found => found.reverse
  | fuel + 1, id :: stack, found => walk below fuel (below id ++ stack) (id :: found)

/-- The descendants of a node, attributes left out, each before its own descendants. -/
def descendants (doc : Document) (id : NodeId) : List NodeId :=
  walk doc.children doc.size (doc.children id) []

/-- The text of a text node; nothing for any other node. -/
def textOf (doc : Document) (id : NodeId) : String :=
  match doc.kind id with
  | .text value => value
  | _ => ""

/-- The children of an element; none for any other node. -/
def elementContent (doc : Document) (id : NodeId) : List NodeId :=
  if doc.isElement id then doc.children id else []

/-- The text of all text nodes below a node that are reached through elements. -/
def textBelow (doc : Document) (id : NodeId) : String :=
  (walk doc.elementContent doc.size (doc.children id) []).foldl
    (fun text id => text ++ doc.textOf id) ""

/-- The string value: of an attribute, text or comment its own, of other nodes the text below. -/
def stringValue (doc : Document) (id : NodeId) : String :=
  match doc.kind id with
  | .attribute _ value | .text value | .comment value => value
  | .document | .element .. => doc.textBelow id

/-! ## Upwards -/

/-- The chain of parents from a node on, the node itself left out. -/
def climb (doc : Document) : (fuel : Nat) → NodeId → List NodeId
  | 0, _ => []
  | fuel + 1, id =>
    match doc.parent? id with
    | some parent => parent :: climb doc fuel parent
    | none => []

/-- The ancestors of a node, the nearest first. -/
def ancestors (doc : Document) (id : NodeId) : List NodeId := doc.climb doc.size id

/-- The declarations written on an element; none on any other node. -/
def declarations (doc : Document) (id : NodeId) : List Declaration :=
  match doc.kind id with
  | .element _ declarations => declarations
  | _ => []

/-- The declarations in scope at a node: for each prefix the innermost one, inner ones first. -/
def namespacesInScope (doc : Document) (id : NodeId) : List Declaration :=
  ((id :: doc.ancestors id).flatMap doc.declarations).foldl
    (fun scope d => if scope.any (·.pre == d.pre) then scope else scope ++ [d]) []

end Schematron.Xml.Document
