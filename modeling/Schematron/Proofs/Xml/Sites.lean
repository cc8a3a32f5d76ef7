import Schematron.Proofs.Xml.Reachable
import Schematron.Proofs.Xml.Settling

/-!
# Where elements stand

An element of a document is known by its tree and the declarations around it (`Site`). The elements
of a document of settled trees are found at the sites of these trees, in the same order
(`Document.forall₂_sites`), and what is looked up at an element is said by its site.

Documents of trees that differ in comments have the same sites, but for comments
(`Document.SameDocument`).
-/

namespace Schematron.Xml

/-- What is looked for in lists of related elements is found in both, or in none. -/
theorem rel_find? {α β : Type} {R : α → β → Prop} {p : α → Bool} {q : β → Bool} {xs : List α}
    {ys : List β} (h : List.Forall₂ R xs ys) (hpq : ∀ x y, R x y → p x = q y) :
    Option.Rel R (xs.find? p) (ys.find? q) := by
  induction h with
  | nil => exact .none
  | @cons x y _ _ hxy _ ih =>
      rw [List.find?_cons, List.find?_cons, hpq x y hxy]
      split
      · exact .some hxy
      · exact ih

/-- The place of an element: the declarations around it, the innermost first, and its tree. -/
structure Site where
  outer : List Declaration
  tree : Tree

namespace Tree

/-- The declarations written on an element. -/
def declarations : Tree → List Declaration
  | .element _ declarations _ _ => declarations
  | _ => []

/-- The tree with everything in scope declared on its top element. -/
def withScope (outer : List Declaration) : Tree → Tree
  | .element name declarations attributes children =>
    .element name (firstOfEach (declarations ++ outer)) attributes children
  | tree => tree

mutual

/-- The sites of the elements in a tree, each before those below it. -/
def sites (outer : List Declaration) : Tree → List Site
  | .element name declarations attributes children =>
    ⟨outer, .element name declarations attributes children⟩ ::
      sitesOfAll (declarations ++ outer) children
  | _ => []

/-- The sites of the elements in trees. -/
def sitesOfAll (outer : List Declaration) : List Tree → List Site
  | [] => []
  | tree :: rest => sites outer tree ++ sitesOfAll outer rest

end

end Tree

namespace Site

open Xml.Tree

/-- The declarations around the content of the element. -/
def inner (site : Site) : List Declaration := site.tree.declarations ++ site.outer

/-- The site without the comments in its tree. -/
def bare (site : Site) : Site := ⟨site.outer, site.tree.bare⟩

@[simp] theorem inner_bare (site : Site) : site.bare.inner = site.inner := by
  obtain ⟨outer, tree⟩ := site
  cases tree <;> rfl

end Site

namespace Tree

theorem map_withScope_putText (outer : List Declaration) (value : String) (trees : List Tree) :
    (putText value trees).map (withScope outer) = putText value (trees.map (withScope outer)) := by
  cases trees with
  | nil => rfl
  | cons tree rest => cases tree <;> rfl

theorem bareAll_map_withScope (outer : List Declaration) (trees : List Tree) :
    bareAll (trees.map (withScope outer)) = (bareAll trees).map (withScope outer) := by
  induction trees with
  | nil => rfl
  | cons tree rest ih =>
      rw [List.map_cons, bareAll, bareAll, ih]
      cases tree with
      | text value => exact (map_withScope_putText outer value _).symm
      | _ => rfl

theorem SameButComments.withScope {xs ys : List Tree} (h : SameButComments xs ys)
    (outer : List Declaration) :
    SameButComments (xs.map (withScope outer)) (ys.map (withScope outer)) := by
  rw [SameButComments, bareAll_map_withScope, bareAll_map_withScope,
    show Tree.bareAll xs = _ from h]

theorem sitesOfAll_putText (outer : List Declaration) (value : String) (trees : List Tree) :
    sitesOfAll outer (putText value trees) = sitesOfAll outer trees := by
  cases trees with
  | nil => rfl
  | cons tree rest => cases tree <;> rfl

mutual

theorem sitesOfAll_bareOnto : (tree : Tree) → ∀ (outer : List Declaration) (rest : List Tree),
    sitesOfAll outer (bareOnto tree rest) =
      (sites outer tree).map Site.bare ++ sitesOfAll outer rest
  | .element name declarations attributes children => by
      intro outer rest
      rw [bareOnto, sitesOfAll, sites, sites, List.map_cons,
        sitesOfAll_bareAll children]
      rfl
  | .text value => fun outer rest => sitesOfAll_putText outer value rest
  | .comment _ => fun _ _ => rfl

/-- Without comments the elements are the same. -/
theorem sitesOfAll_bareAll : (trees : List Tree) → ∀ outer : List Declaration,
    sitesOfAll outer (bareAll trees) = (sitesOfAll outer trees).map Site.bare
  | [] => fun _ => rfl
  | tree :: rest => fun outer => by
      rw [bareAll, sitesOfAll_bareOnto tree, sitesOfAll_bareAll rest, sitesOfAll, List.map_append]

end

end Tree

namespace Document

open Xml.Tree

variable {doc : Document} {parent start id : NodeId}

/-! ## Scopes -/

/-- The declarations on a node and around it, the innermost first. -/
def around (doc : Document) (id : NodeId) : List Declaration :=
  (id :: doc.ancestors id).flatMap doc.declarations

theorem namespacesInScope_eq (doc : Document) (id : NodeId) :
    doc.namespacesInScope id = firstOfEach (doc.around id) := rfl

theorem around_root (hlinked : Linked doc) : doc.around rootNode = [] := by
  rw [around, Linked.ancestors_of_none hlinked.parent?_root, List.flatMap_singleton,
    Document.declarations, hlinked.kind_root]

theorem Holds.parent?_eq {name : Name} {declarations : List Declaration}
    {attributes : List (Name × String)} {children : List Tree}
    (h : doc.Holds parent start (.element name declarations attributes children)) :
    doc.parent? start = some parent := by
  rw [parent?, h.element_node]
  rfl

theorem Holds.around_eq (hlinked : Linked doc) {name : Name} {declarations : List Declaration}
    {attributes : List (Name × String)} {children : List Tree}
    (h : doc.Holds parent start (.element name declarations attributes children)) :
    doc.around start = declarations ++ doc.around parent := by
  rw [around, hlinked.ancestors_of_parent h.parent?_eq, List.flatMap_cons, Document.declarations,
    h.element_kind, around]

/-! ## Trees with their scope -/

theorem scopedTree?_of_holds (hlinked : Linked doc) {tree : Tree} (h : doc.Holds parent start tree)
    (hsolid : Solid tree) : doc.scopedTree? start = some (tree.withScope (doc.around parent)) := by
  rw [scopedTree?, h.tree?_eq hsolid.weight_ne_zero, hsolid.tidy_eq]
  cases tree with
  | element name declarations attributes children =>
      rw [Option.map_some, namespacesInScope_eq, h.around_eq hlinked]
      rfl
  | _ => rfl

theorem filterMap_scopedTree? (hlinked : Linked doc) {trees : List Tree}
    (h : doc.HoldsAll parent start trees) (hsolid : SolidAll trees) :
    (tops start trees).filterMap doc.scopedTree? = trees.map (withScope (doc.around parent)) := by
  induction trees generalizing start with
  | nil => rfl
  | cons tree rest ih =>
      rw [tops, if_neg hsolid.1.weight_ne_zero, List.filterMap_append, ih h.tail hsolid.2]
      simp [scopedTree?_of_holds hlinked h.head hsolid.1]

/-! ## Elements at sites -/

/-- The element at a node has this site. -/
structure At (doc : Document) (id : NodeId) (site : Site) : Prop where
  holds : ∃ parent, doc.Holds parent id site.tree ∧ doc.around parent = site.outer
  element : site.tree.isAnyElement = true
  solid : Solid site.tree

namespace At

variable {site : Site}

theorem of_holds {name : Name} {declarations : List Declaration}
    {attributes : List (Name × String)} {children : List Tree}
    (h : doc.Holds parent start (.element name declarations attributes children))
    (hsolid : SolidAll children) :
    doc.At start ⟨doc.around parent, .element name declarations attributes children⟩ :=
  ⟨⟨parent, h, rfl⟩, rfl, hsolid⟩

theorem tree?_eq (h : doc.At id site) : doc.tree? id = some site.tree := by
  obtain ⟨⟨parent, hholds, -⟩, -, hsolid⟩ := h
  rw [hholds.tree?_eq hsolid.weight_ne_zero, hsolid.tidy_eq]

theorem scopedTree?_eq (hlinked : Linked doc) (h : doc.At id site) :
    doc.scopedTree? id = some (site.tree.withScope site.outer) := by
  obtain ⟨⟨parent, hholds, houter⟩, -, hsolid⟩ := h
  rw [scopedTree?_of_holds hlinked hholds hsolid, houter]

theorem attribute?_eq (h : doc.At id site) (localPart : String) :
    doc.attribute? id localPart = site.tree.attribute? localPart := by
  obtain ⟨⟨parent, hholds, -⟩, helement, -⟩ := h
  cases htree : site.tree with
  | element name declarations attributes children =>
      rw [htree] at hholds
      exact hholds.attribute?_eq localPart
  | text value =>
      rw [htree] at helement
      cases helement
  | comment value =>
      rw [htree] at helement
      cases helement

/-- What is around the content of an element, and that content. -/
theorem content (hlinked : Linked doc) (h : doc.At id site) :
    doc.around id = site.inner ∧ SolidAll site.tree.children ∧
      ∃ start, doc.HoldsAll id start site.tree.children ∧
        doc.children id = tops start site.tree.children := by
  obtain ⟨⟨parent, hholds, houter⟩, helement, hsolid⟩ := h
  rw [Site.inner, ← houter]
  cases htree : site.tree with
  | element name declarations attributes children =>
      rw [htree] at hholds hsolid
      exact ⟨hholds.around_eq hlinked, hsolid, _, hholds.content, hholds.element_children⟩
  | text value =>
      rw [htree] at helement
      cases helement
  | comment value =>
      rw [htree] at helement
      cases helement

theorem scopedChildren_eq (hlinked : Linked doc) (h : doc.At id site) :
    doc.scopedChildren id = site.tree.children.map (withScope site.inner) := by
  obtain ⟨haround, hsolid, start, hholds, hchildren⟩ := h.content hlinked
  rw [scopedChildren, hchildren, filterMap_scopedTree? hlinked hholds hsolid, haround]

end At

mutual

theorem forall₂_at_tree (hlinked : Linked doc) {parent start : NodeId} :
    (tree : Tree) → doc.Holds parent start tree → Solid tree →
      List.Forall₂ doc.At ((nodeIds start tree).filter doc.isElement)
        (sites (doc.around parent) tree)
  | .text value, h, hsolid => by
      have hvalue : value.isEmpty = false := hsolid
      simp [nodeIds, hvalue, isElement, h.text_kind hvalue, sites]
  | .comment value, h, _ => by
      simp [nodeIds, isElement, h.comment_kind, sites]
  | .element name declarations attributes children, h, hsolid => by
      have helement : doc.isElement start = true := by rw [isElement, h.element_kind]
      rw [nodeIds, List.filter_cons_of_pos helement, sites, ← h.around_eq hlinked]
      exact .cons (.of_holds h hsolid) (forall₂_at_trees hlinked children h.content hsolid)

/-- The elements among the nodes of trees are at the sites of the trees. -/
theorem forall₂_at_trees (hlinked : Linked doc) {parent start : NodeId} :
    (trees : List Tree) → doc.HoldsAll parent start trees → SolidAll trees →
      List.Forall₂ doc.At ((nodeIdsAll start trees).filter doc.isElement)
        (sitesOfAll (doc.around parent) trees)
  | [], _, _ => .nil
  | tree :: rest, h, hsolid => by
      rw [nodeIdsAll, List.filter_append, sitesOfAll]
      exact List.rel_append (forall₂_at_tree hlinked tree h.head hsolid.1)
        (forall₂_at_trees hlinked rest h.tail hsolid.2)

end

mutual

theorem filterMap_tree?_tree {parent start : NodeId} :
    (tree : Tree) → doc.Holds parent start tree → Solid tree →
      (nodeIds start tree).filterMap doc.tree? = tree.preorder
  | .text value, h, hsolid => by
      have hvalue : value.isEmpty = false := hsolid
      have htree := h.tree?_eq hsolid.weight_ne_zero
      rw [hsolid.tidy_eq] at htree
      simp [nodeIds, hvalue, htree, preorder]
  | .comment value, h, hsolid => by
      have htree := h.tree?_eq hsolid.weight_ne_zero
      rw [hsolid.tidy_eq] at htree
      simp [nodeIds, htree, preorder]
  | .element name declarations attributes children, h, hsolid => by
      have htree := h.tree?_eq hsolid.weight_ne_zero
      rw [hsolid.tidy_eq] at htree
      rw [nodeIds, List.filterMap_cons_some htree, preorder,
        filterMap_tree?_trees children h.content hsolid]

/-- The nodes of trees have the trees and all trees below them. -/
theorem filterMap_tree?_trees {parent start : NodeId} :
    (trees : List Tree) → doc.HoldsAll parent start trees → SolidAll trees →
      (nodeIdsAll start trees).filterMap doc.tree? = preorderOfAll trees
  | [], _, _ => rfl
  | tree :: rest, h, hsolid => by
      rw [nodeIdsAll, List.filterMap_append, preorderOfAll,
        filterMap_tree?_tree tree h.head hsolid.1, filterMap_tree?_trees rest h.tail hsolid.2]

end

/-- The elements among the top nodes of trees are at the sites of these. -/
theorem forall₂_at_tops {trees : List Tree}
    (h : doc.HoldsAll parent start trees) (hsolid : SolidAll trees) :
    List.Forall₂ doc.At ((tops start trees).filter doc.isElement)
      ((trees.filter (·.isAnyElement)).map (Site.mk (doc.around parent))) := by
  induction trees generalizing start with
  | nil => exact .nil
  | cons tree rest ih =>
      have hrest := ih h.tail hsolid.2
      rw [tops, if_neg hsolid.1.weight_ne_zero, List.singleton_append]
      cases tree with
      | element name declarations attributes children =>
          have helement : doc.isElement start = true := by rw [isElement, h.head.element_kind]
          rw [List.filter_cons_of_pos helement, List.filter_cons_of_pos rfl, List.map_cons]
          exact .cons (.of_holds h.head hsolid.1) hrest
      | text value =>
          have helement : doc.isElement start = false := by
            rw [isElement, h.head.text_kind hsolid.1]
          rwa [List.filter_cons_of_neg (by simp [helement]),
            List.filter_cons_of_neg Bool.false_ne_true]
      | comment value =>
          have helement : doc.isElement start = false := by rw [isElement, h.head.comment_kind]
          rwa [List.filter_cons_of_neg (by simp [helement]),
            List.filter_cons_of_neg Bool.false_ne_true]

/-- The elements below an element are at the sites of its content. -/
theorem At.descendants (hlinked : Linked doc) {site : Site} (h : doc.At id site) :
    List.Forall₂ doc.At ((doc.descendants id).filter doc.isElement)
      (sitesOfAll site.inner site.tree.children) := by
  obtain ⟨haround, hsolid, start, hholds, hchildren⟩ := h.content hlinked
  rw [Document.descendants, hchildren, walk_tops (follows_children doc) hholds, ← haround]
  exact forall₂_at_trees hlinked _ hholds hsolid

theorem At.filterMap_descendants (hlinked : Linked doc) {site : Site} (h : doc.At id site) :
    (doc.descendants id).filterMap doc.tree? = site.tree.descendants := by
  obtain ⟨-, hsolid, start, hholds, hchildren⟩ := h.content hlinked
  rw [Document.descendants, hchildren, walk_tops (follows_children doc) hholds,
    filterMap_tree?_trees _ hholds hsolid, Tree.descendants]

mutual

/-- The elements of a block of indices are those among the nodes of its tree. -/
theorem filter_isElement_tree {parent start : NodeId} :
    (tree : Tree) → doc.Holds parent start tree →
      (List.range' start tree.weight).filter doc.isElement =
        (nodeIds start tree).filter doc.isElement
  | .text value, h => by
      cases hvalue : value.isEmpty with
      | true => simp [weight, nodeIds, hvalue]
      | false => simp [weight, nodeIds, hvalue]
  | .comment value, h => rfl
  | .element name declarations attributes children, h => by
      -- the indices of an element are its own, those of its attributes and those of its content
      have hattributes : (List.range' (start + 1) attributes.length).filter doc.isElement = [] := by
        rw [List.filter_eq_nil_iff]
        intro id hid
        obtain ⟨i, hi, rfl⟩ := List.mem_range'.mp hid
        rw [Nat.one_mul, isElement, kind, h.attribute_node hi]
        simp [attributeNode]
      have hrange : List.range' start (Tree.element name declarations attributes children).weight =
          start :: (List.range' (start + 1) attributes.length ++
            List.range' (start + 1 + attributes.length) (weightOfAll children)) := by
        rw [weight, Nat.add_assoc, Nat.add_comm 1, List.range'_succ, List.range'_append_1]
      rw [hrange, nodeIds, List.filter_cons, List.filter_cons, List.filter_append, hattributes,
        List.nil_append, filter_isElement_trees children h.content]

theorem filter_isElement_trees {parent start : NodeId} :
    (trees : List Tree) → doc.HoldsAll parent start trees →
      (List.range' start (weightOfAll trees)).filter doc.isElement =
        (nodeIdsAll start trees).filter doc.isElement
  | [], _ => rfl
  | tree :: rest, h => by
      rw [weightOfAll, nodeIdsAll, List.filter_append, ← filter_isElement_tree tree h.head,
        ← filter_isElement_trees rest h.tail, ← List.filter_append, List.range'_append_1]

end

/-! ## Documents of trees -/

/-- The document has the nodes of these trees below its document node, and no others. -/
structure MadeOf (doc : Document) (trees : List Tree) : Prop where
  linked : Linked doc
  solid : SolidAll trees
  holds : doc.HoldsAll rootNode 1 trees
  children : doc.children rootNode = tops 1 trees
  size : doc.size = 1 + weightOfAll trees

theorem madeOf_graftAll {trees : List Tree} (hproper : ProperAll trees) (hapart : TextsApart trees)
    (hsolid : SolidAll trees) : MadeOf (Document.empty.graftAll rootNode trees) trees := by
  have hbuilt : (Document.empty.graftAll rootNode trees).Built AnyName :=
    changes_graftAll Nat.one_pos trees
  refine ⟨hbuilt.linked, hsolid, holdsAll_graftAll hproper hapart,
    children_graftAll hproper hapart, ?_⟩
  rw [Document.size, ← Array.length_toList, nodes_graftAll hproper hapart, List.length_cons,
    length_layoutAll, Nat.add_comm]

theorem madeOf_ofForest (trees : List Tree) : MadeOf (ofForest trees) (settleAll trees) := by
  rw [← ofForest_settleAll]
  exact madeOf_graftAll (properAll_settleAll trees) (textsApart_settleAll trees)
    (solidAll_settleAll trees)

namespace MadeOf

variable {trees : List Tree}

theorem forest_eq (h : doc.MadeOf trees) : doc.forest = trees := by
  have hweight := HasBlock.length_le h.holds
  rw [length_layoutAll] at hweight
  rw [forest, childTrees, h.children]
  exact (filterMap_treeWithin trees h.holds hweight).trans h.solid.tidyAll_eq

theorem scopedChildren_eq (h : doc.MadeOf trees) :
    doc.scopedChildren rootNode = trees.map (withScope []) := by
  rw [scopedChildren, h.children, filterMap_scopedTree? h.linked h.holds h.solid,
    around_root h.linked]

/-- The elements of a document are at the sites of its trees. -/
theorem forall₂_at (h : doc.MadeOf trees) :
    List.Forall₂ doc.At ((List.range doc.size).filter doc.isElement) (sitesOfAll [] trees) := by
  have hroot : doc.isElement rootNode = false := by rw [isElement, h.linked.kind_root]
  have hrange : List.range doc.size = rootNode :: List.range' 1 (weightOfAll trees) := by
    rw [h.size, Nat.add_comm, List.range_eq_range', List.range'_succ]
    rfl
  rw [hrange, List.filter_cons_of_neg (by simp [hroot]), filter_isElement_trees trees h.holds,
    ← around_root h.linked]
  exact forall₂_at_trees h.linked trees h.holds h.solid

theorem forall₂_elementChildren (h : doc.MadeOf trees) :
    List.Forall₂ doc.At (doc.elementChildren rootNode)
      ((trees.filter (·.isAnyElement)).map (Site.mk [])) := by
  rw [elementChildren, h.children, ← around_root h.linked]
  exact forall₂_at_tops h.holds h.solid

end MadeOf

/-! ## Documents that differ in comments -/

/-- The documents are made of trees that differ in comments. -/
def SameDocument (doc doc' : Document) : Prop :=
  ∃ trees trees', doc.MadeOf trees ∧ doc'.MadeOf trees' ∧ SameButComments trees trees'

/-- The elements have sites that differ in comments. -/
def SameElement (doc doc' : Document) (id id' : NodeId) : Prop :=
  ∃ site site', doc.At id site ∧ doc'.At id' site' ∧ site.bare = site'.bare

variable {doc' : Document} {id' : NodeId}

theorem forall₂_sameElement {ids ids' : List NodeId} {sites sites' : List Site}
    (h : List.Forall₂ doc.At ids sites) (h' : List.Forall₂ doc'.At ids' sites')
    (hsites : sites.map Site.bare = sites'.map Site.bare) :
    List.Forall₂ (doc.SameElement doc') ids ids' := by
  induction h generalizing ids' sites' with
  | nil =>
      rw [List.map_nil, eq_comm, List.map_eq_nil_iff] at hsites
      subst hsites
      cases h'
      exact .nil
  | cons hat _ ih =>
      cases h' with
      | nil => cases hsites
      | cons hat' hrest' =>
          rw [List.map_cons, List.map_cons, List.cons.injEq] at hsites
          exact .cons ⟨_, _, hat, hat', hsites.1⟩ (ih hrest' hsites.2)

namespace SameElement

theorem attribute?_eq (h : doc.SameElement doc' id id') (localPart : String) :
    doc.attribute? id localPart = doc'.attribute? id' localPart := by
  obtain ⟨site, site', hat, hat', hsame⟩ := h
  rw [hat.attribute?_eq, hat'.attribute?_eq, ← attribute?_bare, ← attribute?_bare site'.tree]
  exact congrArg (fun site : Site => site.tree.attribute? localPart) hsame

/-- The trees of the elements differ in comments. -/
theorem tree? (h : doc.SameElement doc' id id') :
    ∃ tree tree', doc.tree? id = some tree ∧ doc'.tree? id' = some tree' ∧
      tree.bare = tree'.bare := by
  obtain ⟨site, site', hat, hat', hsame⟩ := h
  exact ⟨_, _, hat.tree?_eq, hat'.tree?_eq, congrArg Site.tree hsame⟩

theorem scopedTree? (hlinked : Linked doc) (hlinked' : Linked doc')
    (h : doc.SameElement doc' id id') :
    ∃ tree tree', doc.scopedTree? id = some tree ∧ doc'.scopedTree? id' = some tree' ∧
      SameButComments [tree] [tree'] := by
  obtain ⟨site, site', hat, hat', hsame⟩ := h
  refine ⟨_, _, hat.scopedTree?_eq hlinked, hat'.scopedTree?_eq hlinked', ?_⟩
  have hbare : SameButComments [site.tree] [site'.tree] := by
    rw [SameButComments, bareAll_singleton hat.element, bareAll_singleton hat'.element]
    exact congrArg (fun site : Site => [site.tree]) hsame
  have houter : site.bare.outer = site'.bare.outer := congrArg Site.outer hsame
  rw [show site.outer = site'.outer from houter]
  exact hbare.withScope site'.outer

/-- The contents of the sites differ in comments. -/
theorem exists_at (h : doc.SameElement doc' id id') :
    ∃ site site', doc.At id site ∧ doc'.At id' site' ∧ site.inner = site'.inner ∧
      SameButComments site.tree.children site'.tree.children := by
  obtain ⟨site, site', hat, hat', hsame⟩ := h
  refine ⟨site, site', hat, hat', ?_, ?_⟩
  · rw [← Site.inner_bare, hsame, Site.inner_bare]
  · rw [SameButComments, ← children_bare, ← children_bare]
    exact congrArg (fun site : Site => site.tree.children) hsame

theorem scopedChildren (hlinked : Linked doc) (hlinked' : Linked doc')
    (h : doc.SameElement doc' id id') :
    SameButComments (doc.scopedChildren id) (doc'.scopedChildren id') := by
  obtain ⟨site, site', hat, hat', hinner, hchildren⟩ := h.exists_at
  rw [hat.scopedChildren_eq hlinked, hat'.scopedChildren_eq hlinked', hinner]
  exact hchildren.withScope site'.inner

theorem namespacesInScope (hlinked : Linked doc) (hlinked' : Linked doc')
    (h : doc.SameElement doc' id id') :
    doc.namespacesInScope id = doc'.namespacesInScope id' := by
  obtain ⟨site, site', hat, hat', hinner, -⟩ := h.exists_at
  rw [namespacesInScope_eq, namespacesInScope_eq, (hat.content hlinked).1,
    (hat'.content hlinked').1, hinner]

/-- The elements below the elements are the same. -/
theorem descendants (hlinked : Linked doc) (hlinked' : Linked doc')
    (h : doc.SameElement doc' id id') :
    List.Forall₂ (doc.SameElement doc') ((doc.descendants id).filter doc.isElement)
      ((doc'.descendants id').filter doc'.isElement) := by
  obtain ⟨site, site', hat, hat', hinner, hchildren⟩ := h.exists_at
  refine forall₂_sameElement (hat.descendants hlinked) (hat'.descendants hlinked') ?_
  rw [hinner, ← sitesOfAll_bareAll, ← sitesOfAll_bareAll,
    show bareAll site.tree.children = _ from hchildren]

/-- Of a property of elements, the trees below the elements are the same without comments. -/
theorem filter_descendants (hlinked : Linked doc) (hlinked' : Linked doc')
    (h : doc.SameElement doc' id id') {p : Tree → Bool} (hp : OfElements p) :
    (((doc.descendants id).filterMap doc.tree?).filter p).map bare =
      (((doc'.descendants id').filterMap doc'.tree?).filter p).map bare := by
  obtain ⟨site, site', hat, hat', -, hchildren⟩ := h.exists_at
  rw [hat.filterMap_descendants hlinked, hat'.filterMap_descendants hlinked', Tree.descendants,
    Tree.descendants, ← filter_preorderOfAll_bareAll hp, ← filter_preorderOfAll_bareAll hp,
    show bareAll site.tree.children = _ from hchildren]

end SameElement

namespace SameDocument

theorem linked (h : SameDocument doc doc') : Linked doc ∧ Linked doc' := by
  obtain ⟨trees, trees', hmade, hmade', -⟩ := h
  exact ⟨hmade.linked, hmade'.linked⟩

theorem ofForest {trees trees' : List Tree} (h : SameButComments trees trees') :
    SameDocument (ofForest trees) (ofForest trees') :=
  ⟨_, _, madeOf_ofForest trees, madeOf_ofForest trees', h.settleAll⟩

theorem right (h : SameDocument doc doc') : SameDocument doc' doc' := by
  obtain ⟨-, trees', -, hmade', -⟩ := h
  exact ⟨trees', trees', hmade', hmade', .refl trees'⟩

theorem trans {doc'' : Document} (h : SameDocument doc doc') (h' : SameDocument doc' doc'') :
    SameDocument doc doc'' := by
  obtain ⟨trees, mid, hmade, hmid, hsame⟩ := h
  obtain ⟨mid', trees', hmid', hmade', hsame'⟩ := h'
  -- a document is made of one forest
  obtain rfl : mid = mid' := hmid.forest_eq.symm.trans hmid'.forest_eq
  exact ⟨trees, trees', hmade, hmade', hsame.trans hsame'⟩

theorem forest (h : SameDocument doc doc') : SameButComments doc.forest doc'.forest := by
  obtain ⟨trees, trees', hmade, hmade', hsame⟩ := h
  rwa [hmade.forest_eq, hmade'.forest_eq]

theorem elements (h : SameDocument doc doc') :
    List.Forall₂ (doc.SameElement doc') ((List.range doc.size).filter doc.isElement)
      ((List.range doc'.size).filter doc'.isElement) := by
  obtain ⟨trees, trees', hmade, hmade', hsame⟩ := h
  refine forall₂_sameElement hmade.forall₂_at hmade'.forall₂_at ?_
  rw [← sitesOfAll_bareAll, ← sitesOfAll_bareAll, show bareAll trees = _ from hsame]

theorem elementChildren (h : SameDocument doc doc') :
    List.Forall₂ (doc.SameElement doc') (doc.elementChildren rootNode)
      (doc'.elementChildren rootNode) := by
  obtain ⟨trees, trees', hmade, hmade', hsame⟩ := h
  refine forall₂_sameElement hmade.forall₂_elementChildren hmade'.forall₂_elementChildren ?_
  have hmap (trees : List Tree) : ((trees.filter (·.isAnyElement)).map (Site.mk [])).map Site.bare =
      ((bareAll trees).filter (·.isAnyElement)).map (Site.mk []) := by
    rw [filter_bareAll .isAnyElement, List.map_map, List.map_map]
    rfl
  rw [hmap, hmap, show bareAll trees = _ from hsame]

theorem documentElement? (h : SameDocument doc doc') :
    Option.Rel (doc.SameElement doc') doc.documentElement? doc'.documentElement? := by
  rw [Document.documentElement?, Document.documentElement?]
  have hall := h.elementChildren
  revert hall
  generalize doc.elementChildren rootNode = elements
  generalize doc'.elementChildren rootNode = elements'
  intro hall
  cases hall with
  | nil => exact .none
  | cons helement _ => exact .some helement

/-- The trees of such documents are the same, but for comments, with their scope as well. -/
theorem scopedChildren (h : SameDocument doc doc') :
    SameButComments (doc.scopedChildren rootNode) (doc'.scopedChildren rootNode) := by
  obtain ⟨trees, trees', hmade, hmade', hsame⟩ := h
  rw [hmade.scopedChildren_eq, hmade'.scopedChildren_eq]
  exact hsame.withScope []

end SameDocument

end Document

end Schematron.Xml
