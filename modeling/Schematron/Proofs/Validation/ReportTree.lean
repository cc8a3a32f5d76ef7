import Schematron.Proofs.Xml.Readback
import Schematron.Validation.Svrl

/-!
# The report of a run as a document

The report of a record is a tree, and the document of it is that tree grafted onto an empty
document. Nothing is made one with anything else on the way (`ofRecord_proper`), so the document
has the block of the tree right after its document node (`document_holds`), and what follows the
elements for namespaces are the elements of the events, in order (`body_document`).
-/

namespace Schematron.Validation.Svrl

open Schema
open Xml (Document Name NodeId Tree)
open Xml.Tree

/-! ## The trees of a report -/

/-- Attributes of different keys have different names, whichever of them are left out. -/
theorem attributes_distinct {values : List (String × Option String)}
    (h : (values.map (·.1)).Nodup) :
    (attributes values).Pairwise fun a b => a.1.sameExpanded b.1 = false := by
  induction values with
  | nil => exact .nil
  | cons value rest ih =>
      obtain ⟨key, value⟩ := value
      rw [List.map_cons, List.nodup_cons] at h
      cases value with
      | none => exact ih h.2
      | some value =>
          refine .cons ?_ (ih h.2)
          intro other hother
          -- another attribute comes from another pair, and the keys of the pairs differ
          obtain ⟨⟨key', value'⟩, hmem, hsome⟩ := List.mem_filterMap.mp hother
          obtain ⟨v, hv, rfl⟩ := Option.map_eq_some_iff.mp hsome
          have hne : key ≠ key' := fun heq =>
            h.1 (List.mem_map.mpr ⟨_, hmem, heq.symm⟩)
          simp [Name.sameExpanded, Name.plain, hne]

theorem textsApart_of_elements {trees : List Tree} (h : ∀ tree ∈ trees, tree.isText = false) :
    TextsApart trees := by
  induction trees with
  | nil => exact .nil
  | cons tree rest ih =>
      cases rest with
      | nil => exact .singleton _
      | cons next rest =>
          refine List.isChain_cons_cons.mpr ⟨?_, ih fun t ht => h t (List.mem_cons_of_mem _ ht)⟩
          simp [h tree List.mem_cons_self]

theorem properAll_of_forall {trees : List Tree} (h : ∀ tree ∈ trees, Proper tree) :
    ProperAll trees := by
  induction trees with
  | nil => trivial
  | cons tree rest ih =>
      exact ⟨h tree List.mem_cons_self, ih fun t ht => h t (List.mem_cons_of_mem _ ht)⟩

/-- An element of a report is proper if its keys differ and its children are proper elements. -/
theorem element_proper {localPart : String} {values : List (String × Option String)}
    {children : List Tree} (hkeys : (values.map (·.1)).Nodup)
    (helements : ∀ tree ∈ children, tree.isText = false)
    (hchildren : ∀ tree ∈ children, Proper tree) :
    Proper (element localPart values children) :=
  ⟨.nil, attributes_distinct hkeys, textsApart_of_elements helements, properAll_of_forall hchildren⟩

theorem textElement_proper (value : String) : Proper (textElement value) :=
  ⟨.nil, .nil, .singleton _, trivial, trivial⟩

theorem ofFiring_proper (firing : Firing) : Proper (ofFiring firing) := by
  refine element_proper (by simp) ?_ ?_
  · intro tree htree
    rcases List.mem_append.mp htree with h | h
    · obtain ⟨x, -, rfl⟩ := List.mem_map.mp h
      rfl
    · rw [List.mem_singleton.mp h]
      rfl
  · intro tree htree
    rcases List.mem_append.mp htree with h | h
    · obtain ⟨x, -, rfl⟩ := List.mem_map.mp h
      refine element_proper (by simp) ?_ ?_ <;> intro t ht <;> rw [List.mem_singleton.mp ht]
      · rfl
      · exact textElement_proper _
    · rw [List.mem_singleton.mp h]
      exact textElement_proper _

theorem ofEvent_proper (event : Event) : Proper (ofEvent event) := by
  cases event with
  | activePattern pattern => exact element_proper (by simp) (by simp) (by simp)
  | firedRule rule => exact element_proper (by simp) (by simp) (by simp)
  | firing firing => exact ofFiring_proper firing

theorem ofEvent_isText (event : Event) : (ofEvent event).isText = false := by
  cases event <;> rfl

theorem weight_ofEvent (event : Event) : (ofEvent event).weight ≠ 0 := by
  cases event <;> simp only [ofEvent, ofFiring, element, weight] <;> omega

theorem ofNamespace_proper (pre uri : String) : Proper (ofNamespace pre uri) :=
  element_proper (by simp) (by simp) (by simp)

theorem ofRecord_proper (program : Program) (record : Record) :
    Proper (ofRecord program record) := by
  refine ⟨.cons (by simp) .nil, attributes_distinct (by simp), textsApart_of_elements ?_,
    properAll_of_forall ?_⟩ <;> intro tree htree <;>
    rcases List.mem_append.mp htree with h | h <;> obtain ⟨x, -, rfl⟩ := List.mem_map.mp h
  · rfl
  · exact ofEvent_isText x
  · exact ofNamespace_proper x.1 x.2
  · exact ofEvent_proper x

theorem isElement_element (localPart other : String) (values : List (String × Option String))
    (children : List Tree) :
    (element localPart values children).isElement reportNamespace other =
      (localPart == other) := by
  simp [element, isElement, Name.isIn, elementName, Name.qualified]

theorem stringValue_element (localPart : String) (values : List (String × Option String))
    (children : List Tree) :
    (element localPart values children).stringValue = stringValueOfAll children := by
  rw [element, stringValue]

/-- The local name of the element of an event. -/
def eventName : Event → String
  | .activePattern _ => "active-pattern"
  | .firedRule _ => "fired-rule"
  | .firing firing => firing.assertion.kind.reportElement

theorem isElement_ofEvent (event : Event) (localPart : String) :
    (ofEvent event).isElement reportNamespace localPart = (eventName event == localPart) := by
  cases event <;> exact isElement_element ..

/-! ## The document of a report -/

/-- The document of a report is its document node and the block of its tree. -/
theorem document_nodes (program : Program) (record : Record) :
    (document program record).nodes.toList =
      [{ kind := .document, children := #[1] }] ++
        layout Document.rootNode 1 (ofRecord program record) := by
  have hroot : Document.rootNode < Document.empty.size := Nat.zero_lt_one
  have h := Document.graftAll_nodes .empty hroot
    [ofRecord program record] ⟨ofRecord_proper program record, trivial⟩ (.singleton _)
    (fun tree htree htext => by cases htree; cases htext)
  have hweight : (ofRecord program record).weight ≠ 0 := by
    rw [ofRecord, weight]
    omega
  rw [Document.Grafted] at h
  refine Eq.trans h ?_
  simp [Document.empty, Document.rootNode, Document.size, Document.addChildren, tops, hweight,
    layoutAll]

theorem document_holds (program : Program) (record : Record) :
    (document program record).Holds Document.rootNode 1 (ofRecord program record) :=
  ⟨_, [], by rw [document_nodes, List.append_nil], rfl⟩

theorem documentElement?_document (program : Program) (record : Record) :
    (document program record).documentElement? = some 1 := by
  have hchildren : (document program record).children Document.rootNode = [1] := by
    have hnode : (document program record).node ([] : List Xml.Node).length = _ :=
      Document.node_of_nodes (document_nodes program record)
    rw [List.length_nil] at hnode
    rw [Document.children, Document.rootNode, hnode]
  have hkind := (document_holds program record).element_kind
  simp [Document.documentElement?, Document.elementChildren, hchildren, Document.isElement, hkind]

/-- The elements of a report that follow those for namespaces. -/
def body (svrl : Document) : List Tree :=
  (svrl.documentElement?.elim [] svrl.childTrees).dropWhile
    (·.isElement reportNamespace "ns-prefix-in-attribute-values")

/-- After the elements for namespaces a report has those of the events, in order. -/
theorem body_document (program : Program) (record : Record) :
    body (document program record) = tidyAll (record.events.map ofEvent) := by
  have htrees : (document program record).childTrees 1 =
      tidyAll (program.namespaces.map fun n => ofNamespace n.1 n.2) ++
        tidyAll (record.events.map ofEvent) := by
    rw [(document_holds program record).childTrees_eq, tidyAll_append]
  rw [body, documentElement?_document]
  show List.dropWhile _ ((document program record).childTrees 1) = _
  rw [htrees, List.dropWhile_append_of_pos]
  -- the elements for namespaces end at the first element of an event
  · cases record.events with
    | nil => rfl
    | cons event rest =>
        rw [List.map_cons, tidyAll, if_neg (weight_ofEvent event)]
        refine List.dropWhile_cons_of_neg ?_
        rw [isElement_tidy, isElement_ofEvent]
        cases event with
        | activePattern pattern => simp [eventName]
        | firedRule rule => simp [eventName]
        | firing firing => cases hkind : firing.assertion.kind <;> simp [eventName, hkind,
            AssertionKind.reportElement]
  · intro tree htree
    obtain ⟨original, horiginal, rfl⟩ := mem_tidyAll htree
    obtain ⟨x, -, rfl⟩ := List.mem_map.mp horiginal
    rfl

end Schematron.Validation.Svrl
