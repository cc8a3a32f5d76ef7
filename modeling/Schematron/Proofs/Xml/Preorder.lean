import Schematron.Proofs.Xml.Lineage

/-!
# Preorder

In a document that was read the descendants of a node are listed in preorder: they are what the
recursion over the lists of children lists, and nothing else satisfies that recursion
(`IsPreorder`). The string value of an element and of the document node is the text of the text
nodes among the descendants, in this order, and so it is put together from the string values of the
texts and elements among the children (`preordered_of_parse`).

The walks keep the nodes of all levels on one stack, so that what they find is told for the stack as
a whole: it is found from each node on the stack in turn (`Walked.flatMap`, `Walked.eq_flatMap`).
The walk that collects text goes on below elements only. It is the same walk, since nothing but
elements and the document node has children (`textBelow_eq`).
-/

namespace Schematron.Xml.Document

variable {doc : Document} {id : NodeId} {below below' listed : NodeId → List NodeId}
  {stack stack' found found' ids : List NodeId}

/-! ## Walks along a stack -/

/-- Below each node its children are listed in order, each before what is listed below it. -/
def IsPreorder (doc : Document) (listed : NodeId → List NodeId) : Prop :=
  ∀ id, listed id = (doc.children id).flatMap fun child => child :: listed child

namespace Walked

/-- The nodes at the bottom of a stack are walked along after those above them. -/
theorem append (h : Walked below stack found) (h' : Walked below stack' found') :
    Walked below (stack ++ stack') (found ++ found') := by
  induction h with
  | done => exact h'
  | step _ ih =>
      rw [List.append_assoc] at ih
      exact .step ih

/-- A stack is walked along from each node on it in turn. -/
theorem flatMap (h : ∀ id ∈ stack, Walked below (below id) (listed id)) :
    Walked below stack (stack.flatMap fun id => id :: listed id) := by
  induction stack with
  | nil => exact .done
  | cons id stack ih =>
      obtain ⟨hid, hstack⟩ := List.forall_mem_cons.mp h
      exact .step (hid.append (ih hstack))

/-- The walk finds what the recursion lists for the nodes on the stack. -/
theorem eq_flatMap (hlisted : doc.IsPreorder listed) (h : Walked doc.children stack found) :
    found = stack.flatMap fun id => id :: listed id := by
  induction h with
  | done => rfl
  | @step id stack found _ ih =>
      rw [ih, List.flatMap_append, ← hlisted id]
      rfl

end Walked

theorem Linked.isPreorder_descendants (h : Linked doc) : doc.IsPreorder doc.descendants := fun id =>
  (h.walked id).1.unique (.flatMap fun child _ => (h.walked child).1)

theorem Linked.eq_descendants (h : Linked doc) (hlisted : doc.IsPreorder listed) :
    listed = doc.descendants := by
  funext id
  rw [(h.walked id).1.eq_flatMap hlisted, ← hlisted id]

/-- Walks that go on in the same way find the same. -/
theorem walk_congr {p : NodeId → Prop}
    (h : ∀ id, p id → below id = below' id ∧ ∀ child ∈ below id, p child) (fuel : Nat)
    (hstack : ∀ id ∈ stack, p id) : walk below fuel stack found = walk below' fuel stack found := by
  induction fuel generalizing stack found with
  | zero => rfl
  | succ fuel ih =>
      cases stack with
      | nil => rfl
      | cons id stack =>
          obtain ⟨hid, hrest⟩ := List.forall_mem_cons.mp hstack
          obtain ⟨heq, hbelow⟩ := h id hid
          rw [walk, walk, ← heq]
          exact ih (List.forall_mem_append.mpr ⟨hbelow, hrest⟩)

/-! ## Texts -/

/-- The texts of the text nodes among some nodes, one after the other. -/
def textAmong (doc : Document) (ids : List NodeId) : String :=
  String.join ((ids.filter doc.isText).map doc.textOf)

theorem exists_kind_of_isText (h : doc.isText id = true) : ∃ value, doc.kind id = .text value := by
  rw [isText] at h
  split at h
  · next value hkind => exact ⟨value, hkind⟩
  · cases h

theorem exists_kind_of_isElement (h : doc.isElement id = true) :
    ∃ name declarations, doc.kind id = .element name declarations := by
  rw [isElement] at h
  split at h
  · next name declarations hkind => exact ⟨name, declarations, hkind⟩
  · cases h

theorem textOf_of_isText_eq_false (h : doc.isText id = false) : doc.textOf id = "" := by
  rw [textOf]
  split
  · next hkind => simp [isText, hkind] at h
  · rfl

@[simp] theorem textAmong_nil : doc.textAmong [] = "" := rfl

theorem textAmong_cons : doc.textAmong (id :: ids) = doc.textOf id ++ doc.textAmong ids := by
  cases htext : doc.isText id with
  | true => rw [textAmong, List.filter_cons_of_pos htext, List.map_cons, String.join_cons]; rfl
  | false =>
      rw [textAmong, List.filter_cons_of_neg (by simp [htext]), textOf_of_isText_eq_false htext,
        String.empty_append]
      rfl

theorem textAmong_append (ids' : List NodeId) :
    doc.textAmong (ids ++ ids') = doc.textAmong ids ++ doc.textAmong ids' := by
  rw [textAmong, List.filter_append, List.map_append, String.join_append]
  rfl

theorem foldl_textOf (text : String) :
    ids.foldl (fun text id => text ++ doc.textOf id) text = text ++ doc.textAmong ids := by
  induction ids generalizing text with
  | nil => exact String.append_empty.symm
  | cons id ids ih => rw [List.foldl_cons, ih, textAmong_cons, String.append_assoc]

/-! ## String values -/

/-- Only elements and the document node have children. -/
def OnlyElementsHold (doc : Document) : Prop :=
  ∀ id, id ≠ rootNode → doc.isElement id = false → doc.children id = []

theorem onlyElementsHold_of_parse {text : String} (h : parse text = .ok doc) :
    OnlyElementsHold doc := by
  obtain ⟨trees, rfl, htop, hreadable⟩ := exists_trees_of_parse h
  intro id hroot hid
  exact (leaf_of_isElement_eq_false (Tree.ReadableAll.proper trees hreadable) htop.textsApart hroot
    hid).1

section

variable (hlinked : Linked doc) (hhold : OnlyElementsHold doc)

include hlinked

theorem ne_root_of_mem_children : ∀ child ∈ doc.children id, child ≠ rootNode := by
  rintro child hchild rfl
  have hparent := ((hlinked.mem_children id rootNode).mp hchild).1
  rw [hlinked.parent?_root] at hparent
  cases hparent

include hhold

/-- The walk that collects text comes by all descendants. -/
theorem textBelow_eq (id : NodeId) : doc.textBelow id = doc.textAmong (doc.descendants id) := by
  have hbelow : ∀ id, id ≠ rootNode →
      doc.elementContent id = doc.children id ∧
        ∀ child ∈ doc.elementContent id, child ≠ rootNode := by
    intro id hroot
    have heq : doc.elementContent id = doc.children id := by
      cases hid : doc.isElement id with
      | true => rw [elementContent, if_pos hid]
      | false => rw [elementContent, hhold id hroot hid, ite_self]
    exact ⟨heq, heq ▸ ne_root_of_mem_children hlinked⟩
  rw [textBelow, walk_congr hbelow doc.size (ne_root_of_mem_children hlinked), foldl_textOf,
    String.empty_append]
  rfl

theorem stringValue_eq_textAmong (hid : id = rootNode ∨ doc.isElement id = true) :
    doc.stringValue id = doc.textAmong (doc.descendants id) := by
  rw [← textBelow_eq hlinked hhold id, stringValue]
  rcases hid with rfl | hid
  · rw [hlinked.kind_root]
  · obtain ⟨name, declarations, hkind⟩ := exists_kind_of_isElement hid
    rw [hkind]

/-- At a child and below it there is the text of its string value, if it is a text or an element,
and otherwise none. -/
theorem textAmong_child (hroot : id ≠ rootNode) :
    doc.textAmong (id :: doc.descendants id) =
      if doc.isText id || doc.isElement id then doc.stringValue id else "" := by
  rw [textAmong_cons]
  cases helement : doc.isElement id with
  | true =>
      have htext : doc.isText id = false := by
        obtain ⟨name, declarations, hkind⟩ := exists_kind_of_isElement helement
        rw [isText, hkind]
      rw [textOf_of_isText_eq_false htext, String.empty_append, Bool.or_true, if_pos rfl,
        stringValue_eq_textAmong hlinked hhold (.inr helement)]
  | false =>
      rw [hlinked.isPreorder_descendants id, hhold id hroot helement, List.flatMap_nil,
        textAmong_nil, String.append_empty, Bool.or_false]
      cases htext : doc.isText id with
      | true =>
          obtain ⟨value, hkind⟩ := exists_kind_of_isText htext
          rw [if_pos rfl, textOf, stringValue, hkind]
      | false => rw [textOf_of_isText_eq_false htext, if_neg Bool.false_ne_true]

theorem textAmong_flatMap (hids : ∀ id ∈ ids, id ≠ rootNode) :
    doc.textAmong (ids.flatMap fun id => id :: doc.descendants id) =
      String.join ((ids.filter fun id => doc.isText id || doc.isElement id).map
        doc.stringValue) := by
  induction ids with
  | nil => rfl
  | cons id ids ih =>
      obtain ⟨hid, hids⟩ := List.forall_mem_cons.mp hids
      rw [List.flatMap_cons, textAmong_append, ih hids, textAmong_child hlinked hhold hid,
        List.filter_cons]
      split
      · rw [List.map_cons, String.join_cons]
      · exact String.empty_append

end

/-! ## Main result -/

/-- The walks downwards find what the recursion over the lists of children lists. The recursion
determines the descendants of every node. The string value of the document node and of an element is
the text of the text nodes among the descendants, in order, and so the string values of the texts
and elements among the children, in order. -/
structure Preordered (doc : Document) : Prop where
  isPreorder : doc.IsPreorder doc.descendants
  eq_descendants : ∀ listed, doc.IsPreorder listed → listed = doc.descendants
  stringValue : ∀ id, id = rootNode ∨ doc.isElement id = true →
    doc.stringValue id = doc.textAmong (doc.descendants id)
  stringValue_children : ∀ id, id = rootNode ∨ doc.isElement id = true →
    doc.stringValue id = String.join (((doc.children id).filter fun child =>
      doc.isText child || doc.isElement child).map doc.stringValue)

/-- The walks in a document that was read go in preorder. -/
theorem preordered_of_parse (text : String) (doc : Document) (h : parse text = .ok doc) :
    Preordered doc := by
  have hlinked := (built_of_parse h).linked
  have hhold := onlyElementsHold_of_parse h
  constructor
  case isPreorder => exact hlinked.isPreorder_descendants
  case eq_descendants => exact fun _ => hlinked.eq_descendants
  case stringValue => exact fun _ => stringValue_eq_textAmong hlinked hhold
  case stringValue_children =>
    intro id hid
    rw [stringValue_eq_textAmong hlinked hhold hid, hlinked.isPreorder_descendants id]
    exact textAmong_flatMap hlinked hhold (ne_root_of_mem_children hlinked)

/-- Texts on three levels, with an attribute and a comment that are no part of the string value. -/
theorem preordered_of_parse_levels :
    ∃ doc, parse "<a k='v'>w<b>x<!--c--><d>y</d></b>z</a>" = .ok doc ∧
      doc.descendants 1 = [3, 4, 5, 6, 7, 8, 9] ∧ doc.stringValue 1 = "wxyz" ∧
      Preordered doc := by
  have hok : ((parse "<a k='v'>w<b>x<!--c--><d>y</d></b>z</a>").map fun doc =>
      (doc.descendants 1, doc.stringValue 1)).toOption =
        some ([3, 4, 5, 6, 7, 8, 9], "wxyz") := by
    decide +kernel
  match h : parse "<a k='v'>w<b>x<!--c--><d>y</d></b>z</a>" with
  | .ok doc =>
      rw [h] at hok
      obtain ⟨hdescendants, hvalue⟩ := Prod.mk.inj (Option.some.inj hok)
      exact ⟨doc, rfl, hdescendants, hvalue, preordered_of_parse _ doc h⟩
  | .error fault =>
      rw [h] at hok
      cases hok

end Schematron.Xml.Document
