import Schematron.Proofs.Xml.Layout
import Schematron.Schema.Vocabulary

/-!
# Reading a tree from its block

A document that has the block of a tree at some index reads there like the tree: the nodes have
its names and attributes, the tree that is cut out at the index is the one that was put there, and
so is its string value. Only empty texts are lost (`Tree.tidy`).

The block is all that matters (`Document.Holds`): what stands before and after it in the document
does not.
-/

namespace Schematron.Xml

namespace Tree

mutual

/-- The tree without its empty texts. -/
def tidy : Tree → Tree
  | .element name declarations attributes children =>
    .element name declarations attributes (tidyAll children)
  | tree => tree

def tidyAll : List Tree → List Tree
  | [] => []
  | tree :: rest => (if tree.weight = 0 then [] else [tidy tree]) ++ tidyAll rest

end

theorem tidyAll_append (xs ys : List Tree) : tidyAll (xs ++ ys) = tidyAll xs ++ tidyAll ys := by
  induction xs with
  | nil => rfl
  | cons x xs ih => simp only [List.cons_append, tidyAll, ih, List.append_assoc]

theorem mem_tidyAll {tree : Tree} {trees : List Tree} (h : tree ∈ tidyAll trees) :
    ∃ original ∈ trees, tree = tidy original := by
  induction trees with
  | nil => cases h
  | cons first rest ih =>
      rw [tidyAll] at h
      rcases List.mem_append.mp h with h | h
      · by_cases hweight : first.weight = 0
        · simp [hweight] at h
        · rw [if_neg hweight, List.mem_singleton] at h
          exact ⟨first, List.mem_cons_self, h⟩
      · obtain ⟨original, hmem, rfl⟩ := ih h
        exact ⟨original, List.mem_cons_of_mem _ hmem, rfl⟩

mutual

/-- There are no empty texts in the tree. -/
def Solid : Tree → Prop
  | .element _ _ _ children => SolidAll children
  | .text value => value.isEmpty = false
  | .comment _ => True

def SolidAll : List Tree → Prop
  | [] => True
  | tree :: rest => Solid tree ∧ SolidAll rest

end

theorem Solid.weight_ne_zero {tree : Tree} (h : Solid tree) : tree.weight ≠ 0 := by
  cases tree with
  | element name declarations attributes children =>
      rw [weight]
      omega
  | text value =>
      have hvalue : value.isEmpty = false := h
      simp [weight, hvalue]
  | comment value => simp [weight]

mutual

theorem Solid.tidy_eq : {tree : Tree} → Solid tree → tidy tree = tree
  | .element name declarations attributes children, h => by
      rw [tidy, SolidAll.tidyAll_eq h]
  | .text _, _ => rfl
  | .comment _, _ => rfl

theorem SolidAll.tidyAll_eq : {trees : List Tree} → SolidAll trees → tidyAll trees = trees
  | [], _ => rfl
  | tree :: rest, h => by
      rw [tidyAll, if_neg h.1.weight_ne_zero, Solid.tidy_eq h.1, SolidAll.tidyAll_eq h.2]
      rfl

end

@[simp] theorem isElement_tidy (tree : Tree) (uri localPart : String) :
    (tidy tree).isElement uri localPart = tree.isElement uri localPart := by
  cases tree <;> rfl

mutual

/-- The nodes of a tree that starts at an index, attributes left out. -/
def nodeIds (start : NodeId) : Tree → List NodeId
  | .element _ _ attributes children => start :: nodeIdsAll (start + 1 + attributes.length) children
  | .text value => if value.isEmpty then [] else [start]
  | .comment _ => [start]

def nodeIdsAll (start : NodeId) : List Tree → List NodeId
  | [] => []
  | tree :: rest => nodeIds start tree ++ nodeIdsAll (start + tree.weight) rest

end

mutual

theorem length_nodeIds_le (start : NodeId) :
    (tree : Tree) → (nodeIds start tree).length ≤ tree.weight
  | .element name declarations attributes children => by
      have := length_nodeIdsAll_le (start + 1 + attributes.length) children
      simp only [nodeIds, weight, List.length_cons]
      omega
  | .text value => by
      simp only [nodeIds, weight]
      split <;> simp
  | .comment value => Nat.le_refl 1

theorem length_nodeIdsAll_le (start : NodeId) :
    (trees : List Tree) → (nodeIdsAll start trees).length ≤ weightOfAll trees
  | [] => Nat.le_refl 0
  | tree :: rest => by
      simp only [nodeIdsAll, weightOfAll, List.length_append]
      exact Nat.add_le_add (length_nodeIds_le start tree) (length_nodeIdsAll_le _ rest)

end

end Tree

namespace Document

open Xml.Tree

/-! ## Blocks -/

/-- From the index `start` on the document has these nodes. -/
def HasBlock (doc : Document) (start : NodeId) (block : List Node) : Prop :=
  ∃ before after, doc.nodes.toList = before ++ block ++ after ∧ before.length = start

/-- The document has the block of a tree below `parent` at the index `start`. -/
def Holds (doc : Document) (parent start : NodeId) (tree : Tree) : Prop :=
  doc.HasBlock start (layout parent start tree)

/-- The document has the blocks of trees, one after the other. -/
def HoldsAll (doc : Document) (parent start : NodeId) (trees : List Tree) : Prop :=
  doc.HasBlock start (layoutAll parent start trees)

namespace HasBlock

variable {doc : Document} {start : NodeId}

theorem left {xs ys : List Node} (h : doc.HasBlock start (xs ++ ys)) : doc.HasBlock start xs := by
  obtain ⟨before, after, hnodes, hstart⟩ := h
  exact ⟨before, ys ++ after, by simpa using hnodes, hstart⟩

theorem right {xs ys : List Node} (h : doc.HasBlock start (xs ++ ys)) :
    doc.HasBlock (start + xs.length) ys := by
  obtain ⟨before, after, hnodes, hstart⟩ := h
  exact ⟨before ++ xs, after, by simpa using hnodes, by simp [hstart]⟩

theorem node_eq {n : Node} {rest : List Node} (h : doc.HasBlock start (n :: rest)) :
    doc.node start = n := by
  obtain ⟨before, after, hnodes, rfl⟩ := h
  rw [List.append_assoc, List.cons_append] at hnodes
  exact node_of_nodes hnodes

theorem node_getElem {block : List Node} (h : doc.HasBlock start block) {i : Nat}
    (hi : i < block.length) : doc.node (start + i) = block[i] := by
  -- the node is the head of what is left of the block behind the nodes before it
  have hsplit : block = block.take i ++ block[i] :: block.drop (i + 1) := by simp
  rw [hsplit] at h
  have hright := h.right
  rw [List.length_take, Nat.min_eq_left (Nat.le_of_lt hi)] at hright
  exact hright.node_eq

theorem length_le {block : List Node} (h : doc.HasBlock start block) :
    block.length ≤ doc.size := by
  obtain ⟨before, after, hnodes, -⟩ := h
  rw [Document.size, ← Array.length_toList, hnodes]
  simp only [List.length_append]
  omega

end HasBlock

namespace HoldsAll

variable {doc : Document} {parent start : NodeId} {tree : Tree} {rest : List Tree}

theorem head (h : doc.HoldsAll parent start (tree :: rest)) : doc.Holds parent start tree :=
  HasBlock.left h

theorem tail (h : doc.HoldsAll parent start (tree :: rest)) :
    doc.HoldsAll parent (start + tree.weight) rest := by
  have := HasBlock.right h
  rwa [length_layout] at this

end HoldsAll

theorem findSome?_ite {α β : Type} (p : α → Bool) (f : α → β) (xs : List α) :
    xs.findSome? (fun x => if p x then some (f x) else none) = (xs.find? p).map f := by
  induction xs with
  | nil => rfl
  | cons x xs ih => cases h : p x <;> simp [h, ih]

namespace Holds

variable {doc : Document} {parent start : NodeId} {name : Name} {declarations : List Declaration}
  {attributes : List (Name × String)} {children : List Tree}

theorem element_node (h : doc.Holds parent start (.element name declarations attributes children)) :
    doc.node start = elementNode parent start name declarations attributes.length children :=
  HasBlock.node_eq h

theorem content (h : doc.Holds parent start (.element name declarations attributes children)) :
    doc.HoldsAll start (start + 1 + attributes.length) children := by
  have hblock : doc.HasBlock start (_ :: attributes.map (attributeNode start) ++ _) := h
  have := hblock.right
  rw [List.length_cons, List.length_map, Nat.add_comm attributes.length, ← Nat.add_assoc] at this
  exact this

theorem attribute_node
    (h : doc.Holds parent start (.element name declarations attributes children)) {i : Nat}
    (hi : i < attributes.length) :
    doc.node (start + 1 + i) = attributeNode start attributes[i] := by
  have hsplit : doc.HasBlock start ([_] ++ (attributes.map (attributeNode start) ++ _)) := h
  have hblock : doc.HasBlock (start + 1) (attributes.map (attributeNode start)) :=
    hsplit.right.left
  rw [hblock.node_getElem (by simpa using hi), List.getElem_map]

theorem text_kind {value : String} (h : doc.Holds parent start (.text value))
    (hvalue : value.isEmpty = false) : doc.kind start = .text value := by
  rw [Holds, layout, hvalue] at h
  rw [kind, HasBlock.node_eq h]

theorem comment_kind {value : String} (h : doc.Holds parent start (.comment value)) :
    doc.kind start = .comment value := by
  rw [kind, HasBlock.node_eq h]

theorem element_kind
    (h : doc.Holds parent start (.element name declarations attributes children)) :
    doc.kind start = .element name declarations := by
  rw [kind, h.element_node]
  rfl

theorem element_children
    (h : doc.Holds parent start (.element name declarations attributes children)) :
    doc.children start = tops (start + 1 + attributes.length) children := by
  rw [Document.children, h.element_node]
  rfl

/-- What is looked up at the attributes of an element is looked up in those of its tree. -/
theorem map_attributes {β : Type}
    (h : doc.Holds parent start (.element name declarations attributes children))
    {f : NodeId → β} {g : Name × String → β}
    (hf : ∀ id name value, doc.kind id = .attribute name value → f id = g (name, value)) :
    (doc.attributes start).map f = attributes.map g := by
  have hids : doc.attributes start = List.range' (start + 1) attributes.length := by
    rw [Document.attributes, h.element_node]
    rfl
  rw [hids]
  refine List.ext_getElem (by simp) fun i hi _ => ?_
  have hi : i < attributes.length := by simpa using hi
  have hkind : doc.kind (start + 1 + i) = .attribute attributes[i].1 attributes[i].2 := by
    rw [kind, h.attribute_node hi]
    rfl
  simp [hf _ _ _ hkind]

theorem filterMap_attributes {β : Type}
    (h : doc.Holds parent start (.element name declarations attributes children))
    {f : NodeId → Option β} {g : Name × String → Option β}
    (hf : ∀ id name value, doc.kind id = .attribute name value → f id = g (name, value)) :
    (doc.attributes start).filterMap f = attributes.filterMap g := by
  have hmap := congrArg (List.filterMap id) (h.map_attributes hf)
  rw [List.filterMap_map, List.filterMap_map] at hmap
  exact hmap

theorem findSome?_attributes {β : Type}
    (h : doc.Holds parent start (.element name declarations attributes children))
    {f : NodeId → Option β} {g : Name × String → Option β}
    (hf : ∀ id name value, doc.kind id = .attribute name value → f id = g (name, value)) :
    (doc.attributes start).findSome? f = attributes.findSome? g := by
  have hmap := congrArg (List.findSome? id) (h.map_attributes hf)
  rw [List.findSome?_map, List.findSome?_map] at hmap
  exact hmap

theorem attributeValues_eq
    (h : doc.Holds parent start (.element name declarations attributes children)) :
    doc.attributeValues start = attributes := by
  rw [attributeValues, h.filterMap_attributes (g := some), List.filterMap_some]
  intro id name value hkind
  rw [hkind]

theorem attribute?_eq
    (h : doc.Holds parent start (.element name declarations attributes children))
    (localPart : String) :
    doc.attribute? start localPart =
      (Tree.element name declarations attributes children).attribute? localPart := by
  rw [Document.attribute?, h.findSome?_attributes (g := fun a =>
    if a.1.uri.isNone && a.1.localPart == localPart then some a.2 else none)]
  · exact findSome?_ite _ _ attributes
  · intro id name value hkind
    rw [hkind]

end Holds

/-! ## Cutting the tree out -/

theorem isEmpty_eq_false_of_weight {value : String} (h : (Tree.text value).weight ≠ 0) :
    value.isEmpty = false := by
  cases hempty : value.isEmpty with
  | false => rfl
  | true => exact absurd (by simp [weight, hempty]) h

mutual

theorem treeWithin_of_holds {doc : Document} {parent start depth : Nat} :
    (tree : Tree) → doc.Holds parent start tree → tree.weight ≠ 0 → tree.weight ≤ depth →
      doc.treeWithin depth start = some tree.tidy
  | .text value, h, hsolid, hdepth => by
      obtain ⟨depth, rfl⟩ : ∃ d, depth = d + 1 := ⟨depth - 1, by omega⟩
      simp only [treeWithin, h.text_kind (isEmpty_eq_false_of_weight hsolid), tidy]
  | .comment value, h, hsolid, hdepth => by
      obtain ⟨depth, rfl⟩ : ∃ d, depth = d + 1 := ⟨depth - 1, by omega⟩
      simp only [treeWithin, h.comment_kind, tidy]
  -- the children of a tree weigh less than the tree, so the depth suffices for them
  | .element name declarations attributes children, h, _, hdepth => by
      rw [weight] at hdepth
      obtain ⟨depth, rfl⟩ : ∃ d, depth = d + 1 := ⟨depth - 1, by omega⟩
      have hless : weightOfAll children ≤ depth := by omega
      have hchildren := filterMap_treeWithin children h.content hless
      simp only [treeWithin, h.element_kind, h.attributeValues_eq, h.element_children, hchildren,
        tidy]

theorem filterMap_treeWithin {doc : Document} {parent start depth : Nat} :
    (trees : List Tree) → doc.HoldsAll parent start trees → weightOfAll trees ≤ depth →
      (tops start trees).filterMap (doc.treeWithin depth) = tidyAll trees
  | [], _, _ => rfl
  | tree :: rest, h, hdepth => by
      rw [weightOfAll] at hdepth
      have hrest := filterMap_treeWithin rest h.tail (Nat.le_of_add_left_le hdepth)
      rw [tops, tidyAll, List.filterMap_append, hrest]
      by_cases hsolid : tree.weight = 0
      · simp [hsolid]
      · simp [hsolid, treeWithin_of_holds tree h.head hsolid (Nat.le_of_add_right_le hdepth)]

end

theorem Holds.tree?_eq {doc : Document} {parent start : NodeId} {tree : Tree}
    (h : doc.Holds parent start tree) (hsolid : tree.weight ≠ 0) :
    doc.tree? start = some tree.tidy := by
  refine treeWithin_of_holds tree h hsolid ?_
  have := HasBlock.length_le h
  rwa [length_layout] at this

/-- The trees of the children of an element are those that were put there. -/
theorem Holds.childTrees_eq {doc : Document} {parent start : NodeId} {name : Name}
    {declarations : List Declaration} {attributes : List (Name × String)} {children : List Tree}
    (h : doc.Holds parent start (.element name declarations attributes children)) :
    doc.childTrees start = tidyAll children := by
  rw [childTrees, h.element_children]
  refine filterMap_treeWithin children h.content ?_
  have := HasBlock.length_le h.content
  rwa [length_layoutAll] at this

/-! ## Documents of trees -/

/-- The nodes of a document onto which proper trees were grafted. -/
theorem nodes_graftAll {trees : List Tree} (hproper : ProperAll trees)
    (hapart : TextsApart trees) :
    (Document.empty.graftAll rootNode trees).nodes.toList =
      { kind := .document, children := (tops 1 trees).toArray } ::
        layoutAll rootNode 1 trees := by
  have hgrafted := graftAll_nodes .empty (Nat.one_pos : rootNode < Document.empty.size) trees
    hproper hapart (fun _ _ _ last hlast => by cases hlast)
  refine Eq.trans hgrafted ?_
  simp [Document.empty, Document.size, addChildren, rootNode]

theorem holdsAll_graftAll {trees : List Tree} (hproper : ProperAll trees)
    (hapart : TextsApart trees) :
    (Document.empty.graftAll rootNode trees).HoldsAll rootNode 1 trees :=
  ⟨[_], [], by rw [nodes_graftAll hproper hapart, List.append_nil]; rfl, rfl⟩

theorem children_graftAll {trees : List Tree} (hproper : ProperAll trees)
    (hapart : TextsApart trees) :
    (Document.empty.graftAll rootNode trees).children rootNode = tops 1 trees := by
  rw [Document.children, node_eq, nodes_graftAll hproper hapart]
  rfl

/-- Proper trees are what their document is cut into again, but for empty texts. -/
theorem forest_graftAll {trees : List Tree} (hproper : ProperAll trees)
    (hapart : TextsApart trees) :
    (Document.empty.graftAll rootNode trees).forest = tidyAll trees := by
  have hholds := holdsAll_graftAll hproper hapart
  have hweight := HasBlock.length_le hholds
  rw [length_layoutAll] at hweight
  rw [forest, childTrees, children_graftAll hproper hapart]
  exact filterMap_treeWithin trees hholds hweight

/-! ## Walks -/

/-- What is listed below the node of a tree are the top nodes below it. -/
def Follows (doc : Document) (below : NodeId → List NodeId) : Prop :=
  ∀ parent start tree, doc.Holds parent start tree → tree.weight ≠ 0 →
    below start = tops (start + 1 + tree.attributes.length) tree.children

theorem follows_elementContent (doc : Document) : doc.Follows doc.elementContent := by
  intro parent start tree h hweight
  cases tree with
  | element name declarations attributes children =>
      simp [elementContent, isElement, h.element_kind, h.element_children, Tree.attributes,
        Tree.children]
  | text value =>
      simp [elementContent, isElement, h.text_kind (isEmpty_eq_false_of_weight hweight), tops,
        Tree.children]
  | comment value => simp [elementContent, isElement, h.comment_kind, tops, Tree.children]

theorem follows_children (doc : Document) : doc.Follows doc.children := by
  intro parent start tree h hweight
  cases tree with
  | element name declarations attributes children => exact h.element_children
  | text value =>
      rw [Holds, layout, isEmpty_eq_false_of_weight hweight] at h
      rw [Document.children, HasBlock.node_eq h]
      rfl
  | comment value =>
      rw [Document.children, HasBlock.node_eq h]
      rfl

section

variable {doc : Document} {below : NodeId → List NodeId}

mutual

/-- A walk that comes to a tree goes through all its nodes. -/
theorem walk_tree (hbelow : doc.Follows below) {parent start : NodeId} :
    (tree : Tree) → doc.Holds parent start tree → ∀ (fuel : Nat) (stack found : List NodeId),
      walk below ((nodeIds start tree).length + fuel)
          ((if tree.weight = 0 then [] else [start]) ++ stack) found =
        walk below fuel stack ((nodeIds start tree).reverse ++ found)
  | .text value, h => by
      intro fuel stack found
      cases hvalue : value.isEmpty with
      | true => simp [nodeIds, weight, hvalue]
      | false =>
          have hnone := hbelow _ _ _ h (by simp [weight, hvalue])
          simp [nodeIds, weight, hvalue, Nat.add_comm 1, walk, hnone, Tree.children, tops]
  | .comment value, h => by
      intro fuel stack found
      have hnone := hbelow _ _ _ h (by simp [weight])
      simp [nodeIds, weight, Nat.add_comm 1, walk, hnone, Tree.children, tops]
  | .element name declarations attributes children, h => by
      intro fuel stack found
      have hweight : (Tree.element name declarations attributes children).weight ≠ 0 := by
        rw [weight]
        omega
      have htops : below start = tops (start + 1 + attributes.length) children :=
        hbelow _ _ _ h hweight
      rw [if_neg hweight, nodeIds, List.length_cons, Nat.add_right_comm]
      show walk _ (_ + fuel) (below start ++ stack) (start :: found) = _
      rw [htops, walk_trees hbelow children h.content, List.reverse_cons, List.append_assoc]
      rfl

theorem walk_trees (hbelow : doc.Follows below) {parent start : NodeId} :
    (trees : List Tree) → doc.HoldsAll parent start trees →
      ∀ (fuel : Nat) (stack found : List NodeId),
        walk below ((nodeIdsAll start trees).length + fuel)
            (tops start trees ++ stack) found =
          walk below fuel stack ((nodeIdsAll start trees).reverse ++ found)
  | [], _ => fun fuel stack found => by simp [nodeIdsAll, tops]
  | tree :: rest, h => by
      intro fuel stack found
      rw [nodeIdsAll, tops, List.length_append, List.append_assoc, Nat.add_assoc,
        walk_tree hbelow tree h.head, walk_trees hbelow rest h.tail, List.reverse_append,
        List.append_assoc]

end

/-- The walk from the top nodes of trees on, as long as it is allowed to be. -/
theorem walk_tops (hbelow : doc.Follows below) {parent start : NodeId} {trees : List Tree}
    (h : doc.HoldsAll parent start trees) :
    walk below doc.size (tops start trees) [] = nodeIdsAll start trees := by
  have hlength : (nodeIdsAll start trees).length ≤ doc.size := by
    have hblock := HasBlock.length_le h
    rw [length_layoutAll] at hblock
    exact Nat.le_trans (length_nodeIdsAll_le _ trees) hblock
  obtain ⟨fuel, hfuel⟩ := Nat.exists_eq_add_of_le hlength
  have hwalk := walk_trees hbelow trees h fuel [] []
  -- a walk that has nothing left to visit answers what it found, whatever fuel is over
  have hend : ∀ found, walk below fuel [] found = found.reverse := by
    intro found
    cases fuel <;> rfl
  rwa [← hfuel, List.append_nil, List.append_nil, hend, List.reverse_reverse] at hwalk

end

/-! ## String values -/

mutual

theorem foldl_textOf_tree {doc : Document} {parent start : NodeId} :
    (tree : Tree) → doc.Holds parent start tree → ∀ text : String,
      (nodeIds start tree).foldl (fun text id => text ++ doc.textOf id) text =
        text ++ tree.stringValue
  | .text value, h => by
      intro text
      cases hvalue : value.isEmpty with
      | true =>
          have hempty : value = "" := by simpa using hvalue
          simp [nodeIds, hempty, Tree.stringValue]
      | false => simp [nodeIds, hvalue, Tree.stringValue, textOf, h.text_kind hvalue]
  | .comment value, h => by
      intro text
      simp [nodeIds, Tree.stringValue, textOf, h.comment_kind]
  | .element name declarations attributes children, h => by
      intro text
      rw [nodeIds, List.foldl_cons, textOf, h.element_kind]
      show List.foldl _ (text ++ "") _ = _
      rw [String.append_empty, foldl_textOf_trees children h.content, Tree.stringValue]

theorem foldl_textOf_trees {doc : Document} {parent start : NodeId} :
    (trees : List Tree) → doc.HoldsAll parent start trees → ∀ text : String,
      (nodeIdsAll start trees).foldl (fun text id => text ++ doc.textOf id) text =
        text ++ stringValueOfAll trees
  | [], _ => fun text => by simp [nodeIdsAll, stringValueOfAll]
  | tree :: rest, h => by
      intro text
      rw [nodeIdsAll, List.foldl_append, foldl_textOf_tree tree h.head,
        foldl_textOf_trees rest h.tail, stringValueOfAll, String.append_assoc]

end

/-- The string value of an element is that of its tree. -/
theorem Holds.stringValue_eq {doc : Document} {parent start : NodeId} {name : Name}
    {declarations : List Declaration} {attributes : List (Name × String)} {children : List Tree}
    (h : doc.Holds parent start (.element name declarations attributes children)) :
    doc.stringValue start = stringValueOfAll children := by
  rw [stringValue, h.element_kind]
  show doc.textBelow start = _
  rw [textBelow, h.element_children, walk_tops (follows_elementContent doc) h.content,
    foldl_textOf_trees children h.content, String.empty_append]

/-! ## Looking through all nodes -/

/-- What is found at the top nodes of trees is found in the trees. -/
theorem filterMap_tops {doc : Document} {β : Type} {f : NodeId → Option β} {g : Tree → Option β}
    (hf : ∀ parent start tree, doc.Holds parent start tree → tree.weight ≠ 0 → f start = g tree)
    (hg : ∀ tree : Tree, tree.weight = 0 → g tree = none) {parent start : NodeId}
    {trees : List Tree} (h : doc.HoldsAll parent start trees) :
    (tops start trees).filterMap f = trees.filterMap g := by
  induction trees generalizing start with
  | nil => rfl
  | cons tree rest ih =>
      rw [tops, List.filterMap_append, ih h.tail]
      by_cases hweight : tree.weight = 0
      · simp [hweight, hg tree hweight]
      · simp [hweight, hf _ _ _ h.head hweight, List.filterMap_cons]
        cases g tree <;> rfl

mutual

/-- What is found at the nodes of a tree, none of it at attributes, is found in the tree and the
trees below it, in the same order. -/
theorem filterMap_tree {doc : Document} {β : Type} {f : NodeId → Option β} {g : Tree → Option β}
    (hf : ∀ parent start tree, doc.Holds parent start tree → tree.weight ≠ 0 → f start = g tree)
    (hg : ∀ tree : Tree, tree.weight = 0 → g tree = none)
    (hattribute : ∀ id, doc.isAttribute id = true → f id = none) {parent start : NodeId} :
    (tree : Tree) → doc.Holds parent start tree →
      (List.range' start tree.weight).filterMap f = tree.preorder.filterMap g
  | .text value, h => by
      by_cases hweight : (Tree.text value).weight = 0
      · simp [hweight, preorder, hg _ hweight]
      · have hone : (Tree.text value).weight = 1 := by
          rw [weight] at hweight ⊢
          split <;> simp_all
        simp [hone, preorder, hf _ _ _ h hweight, List.filterMap_cons]
  | .comment value, h => by
      simp [weight, preorder, hf _ _ _ h (by simp [weight]), List.filterMap_cons]
  | .element name declarations attributes children, h => by
      have hweight : (Tree.element name declarations attributes children).weight ≠ 0 := by
        rw [weight]
        omega
      -- the indices of an element are its own, those of its attributes and those of its content
      have hattributes : (List.range' (start + 1) attributes.length).filterMap f = [] := by
        rw [List.filterMap_eq_nil_iff]
        intro id hid
        obtain ⟨i, hi, rfl⟩ := List.mem_range'.mp hid
        refine hattribute _ ?_
        rw [Nat.one_mul, isAttribute, kind, h.attribute_node hi]
        rfl
      have hrange : List.range' start (Tree.element name declarations attributes children).weight =
          start :: (List.range' (start + 1) attributes.length ++
            List.range' (start + 1 + attributes.length) (weightOfAll children)) := by
        rw [weight, Nat.add_assoc, Nat.add_comm 1, List.range'_succ, List.range'_append_1]
      rw [hrange, preorder, List.filterMap_cons, List.filterMap_cons, List.filterMap_append,
        hattributes, List.nil_append, hf _ _ _ h hweight,
        filterMap_trees hf hg hattribute children h.content]

theorem filterMap_trees {doc : Document} {β : Type} {f : NodeId → Option β} {g : Tree → Option β}
    (hf : ∀ parent start tree, doc.Holds parent start tree → tree.weight ≠ 0 → f start = g tree)
    (hg : ∀ tree : Tree, tree.weight = 0 → g tree = none)
    (hattribute : ∀ id, doc.isAttribute id = true → f id = none) {parent start : NodeId} :
    (trees : List Tree) → doc.HoldsAll parent start trees →
      (List.range' start (weightOfAll trees)).filterMap f = (preorderOfAll trees).filterMap g
  | [], _ => rfl
  | tree :: rest, h => by
      rw [weightOfAll, preorderOfAll, List.filterMap_append,
        ← filterMap_tree hf hg hattribute tree h.head,
        ← filterMap_trees hf hg hattribute rest h.tail, ← List.filterMap_append,
        List.range'_append_1]

end

end Document

end Schematron.Xml
