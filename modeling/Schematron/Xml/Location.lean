import Schematron.Xml.Traversal

/-!
# Locations

The path that leads from the document node to a node. A step gives the kind of a node and its
position among the siblings of the same kind, for an element among those of the same expanded
name; an attribute has no position.
-/

namespace Schematron.Xml.Document

/-- The nodes are of a kind that the positions in steps are counted by. -/
def sameKind (doc : Document) (a b : NodeId) : Bool :=
  match doc.kind a, doc.kind b with
  | .element name _, .element other _ => name.sameExpanded other
  | .text _, .text _ | .comment _, .comment _ => true
  | _, _ => false

/-- The position of a node among the siblings of its kind, from 1 on. -/
def siblingPosition (doc : Document) (id : NodeId) : Nat :=
  match doc.parent? id with
  | some parent =>
    (((doc.children parent).takeWhile (· != id)).filter (doc.sameKind id ·)).length + 1
  | none => 1

/-- The step that leads to a node from its parent; none leads to a document node. -/
def locationStep? (doc : Document) (id : NodeId) : Option String :=
  let position := "[" ++ toString (doc.siblingPosition id) ++ "]"
  match doc.kind id with
  | .document => none
  | .element ⟨_, localPart, some uri⟩ _ =>
    some ("*:" ++ localPart ++ "[namespace-uri()='" ++ uri ++ "']" ++ position)
  | .element ⟨_, localPart, none⟩ _ => some (localPart ++ position)
  | .attribute ⟨_, localPart, some uri⟩ _ =>
    some ("@*[local-name()='" ++ localPart ++ "' and namespace-uri()='" ++ uri ++ "']")
  | .attribute ⟨_, localPart, none⟩ _ => some ("@" ++ localPart)
  | .text _ => some ("text()" ++ position)
  | .comment _ => some ("comment()" ++ position)

/-- The path to a node. -/
def location (doc : Document) (id : NodeId) : String :=
  "/" ++ String.intercalate "/" ((id :: doc.ancestors id).filterMap doc.locationStep?).reverse

end Schematron.Xml.Document
