import Schematron.Proofs.Xml.Parsed
import Schematron.Proofs.Xml.Reachable

/-!
# Document order

In a document that was read the indices are the document order: a visit to the tree, at each node
to the node itself, then to its attributes and then to the trees of its children, meets the
indices one after the other (`ordered_of_parse`). The tree at any node is therefore a block of
indices that begins with the node.

The visit is a relation that follows the links of the nodes alone (`Visited`), and a document that
was read is known by the blocks of its trees (`HoldsAll`), so both sides are compared block by
block (`visited_trees`).
-/

namespace Schematron.Xml

namespace Document

open Xml.Tree

/-! ## Visits -/

/-- A visit to the trees at some nodes, one after the other, meets these nodes. A node comes
first, its attributes come next, and the trees at its children follow. -/
inductive Visited (doc : Document) : List NodeId → List NodeId → Prop
  | nil : Visited doc [] []
  | cons {id : NodeId} {ids below rest : List NodeId} (hbelow : Visited doc (doc.children id) below)
      (hrest : Visited doc ids rest) :
      Visited doc (id :: ids) (id :: (doc.attributes id ++ below) ++ rest)

variable {doc : Document} {parent start id : NodeId}

/-- A visit meets the same nodes whenever it is made. -/
theorem Visited.unique {ids met met' : List NodeId} (h : doc.Visited ids met)
    (h' : doc.Visited ids met') : met = met' := by
  induction h generalizing met' with
  | nil =>
      cases h'
      rfl
  | cons _ _ ihbelow ihrest =>
      cases h' with
      | cons hbelow hrest => rw [ihbelow hbelow, ihrest hrest]

/-- A node without children and attributes is met alone. -/
theorem Visited.leaf {ids rest : List NodeId} (hchildren : doc.children id = [])
    (hattributes : doc.attributes id = []) (hrest : doc.Visited ids rest) :
    doc.Visited (id :: ids) (id :: rest) := by
  have hbelow : doc.Visited (doc.children id) [] := by
    rw [hchildren]
    exact .nil
  have hnode := Visited.cons hbelow hrest
  rwa [hattributes] at hnode

/-- The document is in document order. Everything that is below the document node is met by index,
each node stands in the lists of the node that its parent link names, and below the document node
there are one element and comments. Texts are not empty and do not stand side by side. The tree at
a node is a block of indices. -/
structure Ordered (doc : Document) : Prop where
  visited : doc.Visited [rootNode] (List.range doc.size)
  parent? : ∀ p id, doc.parent? id = some p ↔ id ∈ doc.children p ++ doc.attributes p
  documentElement : ∃ element, doc.elementChildren rootNode = [element]
  topLevel : ∀ id ∈ doc.children rootNode, doc.isText id = false ∧ doc.isAttribute id = false
  rootAttributes : doc.attributes rootNode = []
  texts : ∀ id value, doc.kind id = .text value → value.isEmpty = false
  textsSeparate : TextsSeparate doc
  block : ∀ id < doc.size, ∃ n, doc.Visited [id] (List.range' id n)

/-! ## Visits to blocks -/

theorem Holds.element_attributes {name : Name} {declarations : List Declaration}
    {attributes : List (Name × String)} {children : List Tree}
    (h : doc.Holds parent start (.element name declarations attributes children)) :
    doc.attributes start = List.range' (start + 1) attributes.length := by
  rw [Document.attributes, h.element_node]
  rfl

mutual

theorem visited_tree {doc : Document} {parent start : NodeId} :
    (tree : Tree) → doc.Holds parent start tree → ∀ ids rest : List NodeId,
      doc.Visited ids rest →
        doc.Visited ((if tree.weight = 0 then [] else [start]) ++ ids)
          (List.range' start tree.weight ++ rest)
  | .text value, h => by
      intro ids rest hrest
      cases hvalue : value.isEmpty with
      | true =>
          have hweight : (Tree.text value).weight = 0 := by rw [weight, if_pos hvalue]
          rw [hweight, if_pos rfl]
          exact hrest
      | false =>
          have hweight : (Tree.text value).weight = 1 := by rw [weight, hvalue]; rfl
          have hnode : doc.node start = { kind := .text value, parent := some parent } := by
            rw [Holds, layout, hvalue] at h
            exact HasBlock.node_eq h
          rw [hweight, if_neg Nat.one_ne_zero]
          exact .leaf (by rw [Document.children, hnode]) (by rw [Document.attributes, hnode]) hrest
  | .comment value, h => by
      intro ids rest hrest
      have hnode := HasBlock.node_eq h
      exact .leaf (by rw [Document.children, hnode]) (by rw [Document.attributes, hnode]) hrest
  | .element name declarations attributes children, h => by
      intro ids rest hrest
      have hbelow := visited_trees children h.content
      rw [← h.element_children] at hbelow
      have hnode := Visited.cons hbelow hrest
      -- the indices of an element are its own, those of its attributes and those of its content
      have hrange : List.range' start (Tree.element name declarations attributes children).weight =
          start :: (doc.attributes start ++
            List.range' (start + 1 + attributes.length) (weightOfAll children)) := by
        rw [weight, Nat.add_assoc, Nat.add_comm 1, List.range'_succ, h.element_attributes,
          List.range'_append_1]
      rw [hrange, if_neg (by rw [weight]; omega)]
      exact hnode

/-- A visit to trees that a document holds goes through their blocks by index. -/
theorem visited_trees {doc : Document} {parent start : NodeId} :
    (trees : List Tree) → doc.HoldsAll parent start trees →
      doc.Visited (tops start trees) (List.range' start (weightOfAll trees))
  | [], _ => .nil
  | tree :: rest, h => by
      have hvisited := visited_tree tree h.head _ _ (visited_trees rest h.tail)
      rw [tops, weightOfAll, ← List.range'_append_1]
      exact hvisited

end

/-- If a visit goes by index, so do its parts: the tree at any node that it meets is a block. -/
theorem Visited.block (hleaf : ∀ id, doc.isAttribute id = true →
    doc.children id = [] ∧ doc.attributes id = [])
    (hattributes : ∀ p, ∀ id ∈ doc.attributes p, doc.isAttribute id = true)
    {ids met : List NodeId} (h : doc.Visited ids met) {first length : Nat}
    (hmet : List.range' first length = met) :
    ∀ id ∈ met, ∃ n, doc.Visited [id] (List.range' id n) := by
  induction h generalizing first length with
  | nil => exact fun id hid => absurd hid (List.not_mem_nil)
  | @cons node ids below rest hbelow _ ihbelow ihrest =>
      intro id hid
      obtain ⟨k, -, htree, hrange⟩ := List.range'_eq_append_iff.mp hmet
      have hnode : doc.Visited [node] (List.range' first k) := by
        have hone := Visited.cons hbelow .nil
        rwa [List.append_nil, htree] at hone
      rcases List.mem_append.mp hid with hid | hid
      · cases k with
        | zero => cases htree
        | succ k =>
            rw [List.range'_succ, List.cons.injEq] at htree
            obtain ⟨rfl, htree⟩ := htree
            rcases List.mem_cons.mp hid with rfl | hid
            · exact ⟨k + 1, hnode⟩
            · rcases List.mem_append.mp hid with hid | hid
              · -- an attribute is a block of one index
                obtain ⟨hchildren, hnone⟩ := hleaf id (hattributes node id hid)
                exact ⟨1, .leaf hchildren hnone .nil⟩
              · obtain ⟨_, -, -, hsub⟩ := List.range'_eq_append_iff.mp htree.symm
                exact ihbelow hsub.symm id hid
      · exact ihrest hrange.symm id hid

mutual

theorem leaf_or_element_of_mem_layout {parent start : NodeId} {n : Node} :
    (tree : Tree) → n ∈ layout parent start tree →
      n.children = #[] ∧ n.attributes = #[] ∨
        ∃ name declarations, n.kind = .element name declarations
  | .text value, hmem => by
      rw [layout] at hmem
      split at hmem
      · cases hmem
      · rw [List.mem_singleton.mp hmem]
        exact .inl ⟨rfl, rfl⟩
  | .comment value, hmem => by
      rw [List.mem_singleton.mp hmem]
      exact .inl ⟨rfl, rfl⟩
  | .element name declarations attributes children, hmem => by
      rw [layout] at hmem
      rcases List.mem_cons.mp hmem with rfl | hmem
      · exact .inr ⟨name, declarations, rfl⟩
      · rcases List.mem_append.mp hmem with hmem | hmem
        · obtain ⟨a, -, rfl⟩ := List.mem_map.mp hmem
          exact .inl ⟨rfl, rfl⟩
        · exact leaf_or_element_of_mem_layoutAll children hmem

/-- In a layout only elements have something below them. -/
theorem leaf_or_element_of_mem_layoutAll {parent start : NodeId} {n : Node} :
    (trees : List Tree) → n ∈ layoutAll parent start trees →
      n.children = #[] ∧ n.attributes = #[] ∨
        ∃ name declarations, n.kind = .element name declarations
  | [], hmem => absurd hmem (List.not_mem_nil)
  | tree :: rest, hmem => by
      rcases List.mem_append.mp hmem with hmem | hmem
      · exact leaf_or_element_of_mem_layout tree hmem
      · exact leaf_or_element_of_mem_layoutAll rest hmem

end

/-! ## The top level -/

namespace HoldsAll

variable {xs ys : List Tree}

theorem left (h : doc.HoldsAll parent start (xs ++ ys)) : doc.HoldsAll parent start xs := by
  rw [HoldsAll, layoutAll_append] at h
  exact HasBlock.left h

theorem right (h : doc.HoldsAll parent start (xs ++ ys)) :
    doc.HoldsAll parent (start + weightOfAll xs) ys := by
  rw [HoldsAll, layoutAll_append] at h
  have hright := HasBlock.right h
  rwa [length_layoutAll] at hright

end HoldsAll

/-- Below a document node there are comments, and one element as soon as there is any. -/
theorem elements_of_topLevel {rooted : Bool} {trees : List Tree} (h : TopLevel rooted trees)
    (hholds : doc.HoldsAll parent start trees) :
    ((tops start trees).filter doc.isElement).length = (if rooted then 1 else 0) ∧
      ∀ id ∈ tops start trees, doc.isText id = false := by
  induction h with
  | nil => exact ⟨rfl, nofun⟩
  | @comment rooted trees value _ ih =>
      obtain ⟨helements, htexts⟩ := ih hholds.left
      have hkind := hholds.right.head.comment_kind
      rw [tops_append, List.filter_append, List.length_append, helements]
      refine ⟨by simp [tops, weight, isElement, hkind], List.forall_mem_append.mpr ⟨htexts, ?_⟩⟩
      simp [tops, weight, isText, hkind]
  | @element trees name declarations attributes children _ ih =>
      obtain ⟨helements, htexts⟩ := ih hholds.left
      have hkind := hholds.right.head.element_kind
      rw [tops_append, List.filter_append, List.length_append, helements]
      refine ⟨by simp [tops, weight, isElement, hkind], List.forall_mem_append.mpr ⟨htexts, ?_⟩⟩
      simp [tops, weight, isText, hkind]

/-! ## Documents of trees -/

theorem isAttribute_eq (doc : Document) (id : NodeId) :
    doc.isAttribute id = (doc.kind id).isAttribute := by
  rw [isAttribute]
  cases doc.kind id <;> rfl

section

variable {trees : List Tree}

theorem attributes_graftAll (hproper : ProperAll trees) (hapart : TextsApart trees) :
    (Document.empty.graftAll rootNode trees).attributes rootNode = [] := by
  rw [Document.attributes, node_eq, nodes_graftAll hproper hapart]
  rfl

/-- A visit to a document of trees goes through all of it by index. -/
theorem visited_graftAll (hproper : ProperAll trees) (hapart : TextsApart trees) :
    (Document.empty.graftAll rootNode trees).Visited [rootNode]
      (List.range (Document.empty.graftAll rootNode trees).size) := by
  have hbelow := visited_trees trees (holdsAll_graftAll hproper hapart)
  rw [← children_graftAll hproper hapart] at hbelow
  have hall := Visited.cons hbelow .nil
  have hsize : (Document.empty.graftAll rootNode trees).size = weightOfAll trees + 1 := by
    rw [size, ← Array.length_toList, nodes_graftAll hproper hapart, List.length_cons,
      length_layoutAll]
  have hrange : List.range (Document.empty.graftAll rootNode trees).size =
      rootNode :: List.range' 1 (weightOfAll trees) := by
    rw [hsize, List.range_eq_range', List.range'_succ]
    rfl
  rwa [attributes_graftAll hproper hapart, List.append_nil, List.nil_append, ← hrange] at hall

/-- In a document of trees only elements and the document node have something below them. -/
theorem leaf_of_isElement_eq_false (hproper : ProperAll trees) (hapart : TextsApart trees)
    {id : NodeId} (hroot : id ≠ rootNode)
    (hid : (Document.empty.graftAll rootNode trees).isElement id = false) :
    (Document.empty.graftAll rootNode trees).children id = [] ∧
      (Document.empty.graftAll rootNode trees).attributes id = [] := by
  have hnodes := nodes_graftAll hproper hapart
  generalize Document.empty.graftAll rootNode trees = doc at hid hnodes
  obtain ⟨i, rfl⟩ := Nat.exists_eq_succ_of_ne_zero hroot
  by_cases hlt : i < (layoutAll rootNode 1 trees).length
  · -- the nodes but the first are those of the layout
    have hnode : doc.node (i + 1) = (layoutAll rootNode 1 trees)[i] := by
      rw [node_eq, hnodes, List.getElem?_cons_succ, List.getElem?_eq_getElem hlt]
      rfl
    rcases leaf_or_element_of_mem_layoutAll trees (List.getElem_mem hlt) with
      ⟨hnochild, hnone⟩ | ⟨name, declarations, hkind⟩
    · rw [Document.children, Document.attributes, hnode, hnochild, hnone]
      exact ⟨rfl, rfl⟩
    · rw [isElement, Document.kind, hnode, hkind] at hid
      cases hid
  · have hnode : doc.node (i + 1) = { kind := .document } := by
      rw [node_eq, hnodes, List.getElem?_cons_succ, List.getElem?_eq_none (Nat.le_of_not_lt hlt)]
      rfl
    rw [Document.children, Document.attributes, hnode]
    exact ⟨rfl, rfl⟩

/-- Attributes of a document of trees have nothing below them. -/
theorem leaf_of_isAttribute (hproper : ProperAll trees) (hapart : TextsApart trees) {id : NodeId}
    (hid : (Document.empty.graftAll rootNode trees).isAttribute id = true) :
    (Document.empty.graftAll rootNode trees).children id = [] ∧
      (Document.empty.graftAll rootNode trees).attributes id = [] := by
  refine leaf_of_isElement_eq_false hproper hapart ?_ ?_
  · rintro rfl
    rw [isAttribute, Document.kind, node_eq, nodes_graftAll hproper hapart] at hid
    cases hid
  · rw [isElement]
    rw [isAttribute] at hid
    split
    · next hkind => simp [hkind] at hid
    · rfl

end

/-! ## Main result -/

/-- A document that was read is in document order. -/
theorem ordered_of_parse (text : String) (doc : Document) (h : parse text = .ok doc) :
    Ordered doc := by
  obtain ⟨trees, hdoc, htop, hreadable⟩ := exists_trees_of_parse h
  have hlinked := (built_of_parse h).linked
  have hconsistent := (built_of_parse h).consistent
  have hproper := ReadableAll.proper trees hreadable
  have hchildren := children_graftAll hproper htop.textsApart
  have hvisited := visited_graftAll hproper htop.textsApart
  have hlisted (p id : NodeId) (hid : id ∈ doc.attributes p) : doc.isAttribute id = true := by
    rw [isAttribute_eq]
    exact ((hlinked.mem_attributes p id).mp hid).2
  obtain ⟨helements, htexts⟩ :=
    elements_of_topLevel htop (holdsAll_graftAll hproper htop.textsApart)
  rw [← hdoc] at hchildren hvisited helements htexts
  constructor
  case visited => exact hvisited
  case parent? =>
    intro p id
    refine ⟨fun hparent => List.mem_append.mpr ?_, hlinked.parent?_of_mem⟩
    have hmem := hlinked.mem_of_parent? hparent
    split at hmem
    · exact .inr hmem
    · exact .inl hmem
  case documentElement =>
    rw [elementChildren, hchildren]
    exact List.length_eq_one_iff.mp helements
  case topLevel =>
    intro id hid
    refine ⟨htexts id (hchildren ▸ hid), ?_⟩
    rw [isAttribute_eq]
    exact ((hlinked.mem_children rootNode id).mp hid).2
  case rootAttributes => exact hdoc ▸ attributes_graftAll hproper htop.textsApart
  case texts => exact hconsistent.texts
  case textsSeparate => exact hconsistent.textsSeparate
  case block =>
    intro id hid
    refine hvisited.block (fun id hid => ?_) hlisted List.range_eq_range'.symm id
      (List.mem_range.mpr hid)
    subst hdoc
    exact leaf_of_isAttribute hproper htop.textsApart hid

theorem ordered_of_parse_mixed :
    ∃ doc, parse "<!--c--><a k='v' xmlns='u'>x<![CDATA[y]]><b/></a>" = .ok doc ∧
      doc.size = 6 ∧ Ordered doc := by
  have hok : ((parse "<!--c--><a k='v' xmlns='u'>x<![CDATA[y]]><b/></a>").map size).toOption =
      some 6 := by decide +kernel
  match h : parse "<!--c--><a k='v' xmlns='u'>x<![CDATA[y]]><b/></a>" with
  | .ok doc =>
      rw [h] at hok
      exact ⟨doc, rfl, Option.some.inj hok, ordered_of_parse _ doc h⟩
  | .error fault =>
      rw [h] at hok
      cases hok

end Document

end Schematron.Xml
