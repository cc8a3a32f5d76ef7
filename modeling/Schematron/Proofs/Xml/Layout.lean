import Mathlib.Data.List.Chain
import Schematron.Xml.Tree

/-!
# Where the nodes of a tree stand

Grafting builds a tree node by node. The result can be said at once: the nodes of a tree fill a
block of new indices, an element before its attributes and these before the blocks of its
children.

* `Tree.layout` — the block of a tree, as a list of nodes with their links;
* `graft_nodes`, `graftAll_nodes` — grafting appends the block and adds its top nodes to the
  children of the parent.

This asks that an element has no two attributes of one expanded name and no two declarations of
one prefix, and that no two texts stand side by side (`Tree.Proper`), since grafting would make
one of two. Empty texts leave no node.
-/

namespace Schematron.Xml

namespace Tree

def isText : Tree → Bool
  | .text _ => true
  | _ => false

/-- No two texts stand side by side. -/
def TextsApart (trees : List Tree) : Prop :=
  trees.IsChain fun a b => ¬(a.isText = true ∧ b.isText = true)

mutual

/-- Nothing in a tree would be made one with something else when it is grafted. -/
def Proper : Tree → Prop
  | .element _ declarations attributes children =>
    declarations.Pairwise (fun a b => a.pre ≠ b.pre) ∧
      attributes.Pairwise (fun a b => a.1.sameExpanded b.1 = false) ∧
        TextsApart children ∧ ProperAll children
  | _ => True

def ProperAll : List Tree → Prop
  | [] => True
  | tree :: rest => Proper tree ∧ ProperAll rest

end

mutual

/-- The number of nodes of a tree. -/
def weight : Tree → Nat
  | .element _ _ attributes children => 1 + attributes.length + weightOfAll children
  | .text value => if value.isEmpty then 0 else 1
  | .comment _ => 1

def weightOfAll : List Tree → Nat
  | [] => 0
  | tree :: rest => weight tree + weightOfAll rest

end

/-- The top nodes of trees whose blocks stand one after the other from an index on. -/
def tops (start : Nat) : List Tree → List NodeId
  | [] => []
  | tree :: rest =>
    (if tree.weight = 0 then [] else [start]) ++ tops (start + tree.weight) rest

/-- The node of an attribute of an element. -/
def attributeNode (element : NodeId) (a : Name × String) : Node :=
  { kind := .attribute a.1 a.2, parent := some element }

/-- The node of an element with its attributes right after it and the blocks of its children
after these. -/
def elementNode (parent start : NodeId) (name : Name) (declarations : List Declaration)
    (attributes : Nat) (children : List Tree) : Node :=
  { kind := .element name declarations
    parent := some parent
    children := (tops (start + 1 + attributes) children).toArray
    attributes := (List.range' (start + 1) attributes).toArray }

mutual

/-- The nodes of a tree below `parent` from the index `start` on. -/
def layout (parent start : NodeId) : Tree → List Node
  | .element name declarations attributes children =>
    elementNode parent start name declarations attributes.length children ::
      (attributes.map (attributeNode start) ++
        layoutAll start (start + 1 + attributes.length) children)
  | .text value => if value.isEmpty then [] else [{ kind := .text value, parent := some parent }]
  | .comment value => [{ kind := .comment value, parent := some parent }]

def layoutAll (parent start : NodeId) : List Tree → List Node
  | [] => []
  | tree :: rest => layout parent start tree ++ layoutAll parent (start + tree.weight) rest

end

mutual

theorem length_layout (parent start : NodeId) :
    (tree : Tree) → (layout parent start tree).length = tree.weight
  | .element name declarations attributes children => by
      simp only [layout, weight, List.length_cons, List.length_append, List.length_map,
        length_layoutAll]
      omega
  | .text value => by
      simp only [layout, weight]
      split <;> rfl
  | .comment value => rfl

theorem length_layoutAll (parent start : NodeId) :
    (trees : List Tree) → (layoutAll parent start trees).length = weightOfAll trees
  | [] => rfl
  | tree :: rest => by
      simp only [layoutAll, weightOfAll, List.length_append, length_layout, length_layoutAll]

end

theorem tops_append (start : Nat) (xs ys : List Tree) :
    tops start (xs ++ ys) = tops start xs ++ tops (start + weightOfAll xs) ys := by
  induction xs generalizing start with
  | nil => simp [tops, weightOfAll]
  | cons x xs ih => simp only [List.cons_append, tops, ih, weightOfAll, List.append_assoc,
      Nat.add_assoc]

theorem layoutAll_append (parent start : NodeId) (xs ys : List Tree) :
    layoutAll parent start (xs ++ ys) =
      layoutAll parent start xs ++ layoutAll parent (start + weightOfAll xs) ys := by
  induction xs generalizing start with
  | nil => simp [layoutAll, weightOfAll]
  | cons x xs ih => simp only [List.cons_append, layoutAll, ih, weightOfAll, List.append_assoc,
      Nat.add_assoc]

end Tree

/-! ## The nodes of a document as a list -/

namespace Document

open Xml.Tree

theorem node_eq (doc : Document) (id : NodeId) :
    doc.node id = doc.nodes.toList[id]?.getD { kind := .document } := by
  rw [node, Array.getElem?_toList]

/-- The node that stands after some others. -/
theorem node_of_nodes {doc : Document} {before after : List Node} {n : Node}
    (h : doc.nodes.toList = before ++ n :: after) : doc.node before.length = n := by
  rw [node_eq, h]
  simp

/-- Changing the node that stands after some others. -/
theorem modify_at {α : Type} (before after : List α) (x : α) (f : α → α) :
    (before ++ x :: after).modify before.length f = before ++ f x :: after := by
  induction before with
  | nil => rfl
  | cons y before ih => simp [List.modify_succ_cons, ih]

theorem setKind_nodes {doc : Document} {before after : List Node} {n : Node} {kind : NodeKind}
    (h : doc.nodes.toList = before ++ n :: after) :
    (doc.setKind before.length kind).nodes.toList =
      before ++ { n with kind := kind } :: after := by
  rw [setKind, Array.toList_modify, h, modify_at]

/-! ## Declarations and attributes of an element that was just added -/

theorem declare_nodes {doc : Document} {before after : List Node} {n : Node} {name : Name}
    {done : List Declaration} {d : Declaration}
    (h : doc.nodes.toList = before ++ n :: after) (hkind : n.kind = .element name done)
    (hnew : ∀ other ∈ done, other.pre ≠ d.pre) :
    (doc.declare before.length d).nodes.toList =
      before ++ { n with kind := .element name (done ++ [d]) } :: after := by
  have hdoc : doc.kind before.length = .element name done := by
    rw [kind, node_of_nodes h, hkind]
  have hany : done.any (·.pre == d.pre) = false := by
    simpa using hnew
  rw [declare, hdoc]
  show (if done.any (·.pre == d.pre) = true then doc else _).nodes.toList = _
  rw [hany]
  exact setKind_nodes h

theorem foldl_declare_nodes {doc : Document} {before after : List Node} {n : Node} {name : Name}
    {done declarations : List Declaration}
    (h : doc.nodes.toList = before ++ n :: after) (hkind : n.kind = .element name done)
    (hnew : (done ++ declarations).Pairwise (fun a b => a.pre ≠ b.pre)) :
    (declarations.foldl (·.declare before.length ·) doc).nodes.toList =
      before ++ { n with kind := .element name (done ++ declarations) } :: after := by
  induction declarations generalizing doc n done with
  | nil =>
      rw [List.append_nil, ← hkind]
      exact h
  | cons d rest ih =>
      have hd : ∀ other ∈ done, other.pre ≠ d.pre := fun other hother =>
        (List.pairwise_append.mp hnew).2.2 other hother d (by simp)
      rw [List.foldl_cons, ih (declare_nodes h hkind hd) rfl (by simpa using hnew)]
      simp

/-- Setting one more attribute on an element whose attributes stand right after it. -/
theorem setAttribute_nodes {doc : Document} {before : List Node} {n : Node}
    {done : List (Name × String)} {a : Name × String}
    (h : doc.nodes.toList = before ++ n :: done.map (attributeNode before.length))
    (hids : n.attributes = (List.range' (before.length + 1) done.length).toArray)
    (hnew : ∀ other ∈ done, other.1.sameExpanded a.1 = false) :
    (doc.setAttribute before.length a.1 a.2).2.nodes.toList =
      before ++ { n with attributes :=
          (List.range' (before.length + 1) (done ++ [a]).length).toArray } ::
        (done ++ [a]).map (attributeNode before.length) := by
  have hkind : ∀ i (hi : i < done.length), doc.kind (before.length + 1 + i) =
      .attribute done[i].1 done[i].2 := by
    intro i hi
    rw [kind, node_eq, h, List.getElem?_append_right (by omega)]
    simp [Nat.add_assoc, Nat.add_comm 1 i, hi, attributeNode]
  have hfind : doc.findAttribute? before.length a.1 = none := by
    rw [findAttribute?, attributes, node_of_nodes h, hids, List.find?_eq_none]
    intro id hid
    obtain ⟨i, hi, rfl⟩ := List.mem_range'.mp hid
    rw [Nat.one_mul, hkind i hi]
    simp [hnew _ (List.getElem_mem hi)]
  have hsize : doc.size = before.length + 1 + done.length := by
    rw [size, ← Array.length_toList, h]
    simp; omega
  have hrange : (List.range' (before.length + 1) done.length).toArray.push doc.size =
      (List.range' (before.length + 1) (done ++ [a]).length).toArray := by
    rw [List.length_append, List.length_singleton, List.range'_1_concat, List.push_toArray, hsize]
  rw [setAttribute, hfind]
  show ((doc.nodes.push _).modify before.length _).toList = _
  rw [Array.toList_modify, Array.toList_push, h, List.append_assoc, List.cons_append, modify_at,
    hids, hrange]
  simp [attributeNode]

theorem setAttributes_nodes {doc : Document} {before : List Node} {n : Node}
    {done attributes : List (Name × String)}
    (h : doc.nodes.toList = before ++ n :: done.map (attributeNode before.length))
    (hids : n.attributes = (List.range' (before.length + 1) done.length).toArray)
    (hnew : (done ++ attributes).Pairwise (fun a b => a.1.sameExpanded b.1 = false)) :
    (doc.setAttributes before.length attributes).nodes.toList =
      before ++ { n with attributes :=
          (List.range' (before.length + 1) (done ++ attributes).length).toArray } ::
        (done ++ attributes).map (attributeNode before.length) := by
  induction attributes generalizing doc n done with
  | nil =>
      rw [List.append_nil, ← hids]
      exact h
  | cons a rest ih =>
      have ha : ∀ other ∈ done, other.1.sameExpanded a.1 = false := fun other hother =>
        (List.pairwise_append.mp hnew).2.2 other hother a (by simp)
      have hstep := ih (setAttribute_nodes h hids ha) rfl (by simpa using hnew)
      rw [List.append_assoc] at hstep
      exact hstep

/-! ## Grafting -/

/-- The node with more children after those it has. -/
def addChildren (ids : List NodeId) (n : Node) : Node :=
  { n with children := n.children ++ ids.toArray }

/-- The last child of a node is not a text. -/
def EndsOpen (doc : Document) (parent : NodeId) : Prop :=
  ∀ last, (doc.node parent).children.back? = some last → doc.isText last = false

theorem modify_append {α : Type} {xs : List α} {i : Nat} (h : i < xs.length) (ys : List α)
    (f : α → α) : (xs ++ ys).modify i f = xs.modify i f ++ ys := by
  induction xs generalizing i with
  | nil => simp at h
  | cons x xs ih =>
      cases i with
      | zero => rfl
      | succ i =>
          simp only [List.cons_append, List.modify_succ_cons, ih (by simpa using h)]

theorem pushChild_nodes (doc : Document) {parent : NodeId} (kind : NodeKind)
    (hparent : parent < doc.size) :
    (doc.pushChild parent kind).2.nodes.toList =
      doc.nodes.toList.modify parent (addChildren [doc.size]) ++
        [{ kind, parent := some parent }] := by
  have hp : parent < doc.nodes.toList.length := hparent
  have hpush : (fun n : Node => { n with children := n.children.push doc.size }) =
      addChildren [doc.size] := by
    funext n
    simp [addChildren]
  show ((doc.nodes.push _).modify parent _).toList = _
  rw [Array.toList_modify, Array.toList_push, modify_append hp, hpush]

theorem addChildren_addChildren (xs ys : List NodeId) :
    addChildren ys ∘ addChildren xs = addChildren (xs ++ ys) := by
  funext n
  simp [addChildren, Array.append_assoc]

theorem addChildren_nil : addChildren [] = id := by
  funext n
  simp [addChildren]

/-- A document with a new element, which has its declarations and attributes. -/
def opened (doc : Document) (parent : NodeId) (name : Name) (declarations : List Declaration)
    (attributes : List (Name × String)) : Document :=
  (declarations.foldl (·.declare doc.size ·) (doc.appendElement parent name).2).setAttributes
    doc.size attributes

theorem opened_nodes (doc : Document) {parent : NodeId} (hparent : parent < doc.size) (name : Name)
    {declarations : List Declaration} {attributes : List (Name × String)}
    (hdeclarations : declarations.Pairwise (fun a b => a.pre ≠ b.pre))
    (hattributes : attributes.Pairwise (fun a b => a.1.sameExpanded b.1 = false)) :
    (opened doc parent name declarations attributes).nodes.toList =
      doc.nodes.toList.modify parent (addChildren [doc.size]) ++
        elementNode parent doc.size name declarations attributes.length [] ::
          attributes.map (attributeNode doc.size) := by
  have hpushed : (doc.appendElement parent name).2.nodes.toList = _ :=
    pushChild_nodes doc (.element name []) hparent
  have hlength : (doc.nodes.toList.modify parent (addChildren [doc.size])).length = doc.size := by
    rw [List.length_modify]
    rfl
  generalize doc.nodes.toList.modify parent (addChildren [doc.size]) = before at hpushed hlength ⊢
  rw [opened, ← hlength]
  have hnew : ([] ++ declarations).Pairwise (fun a b : Declaration => a.pre ≠ b.pre) :=
    hdeclarations
  have hdeclared := foldl_declare_nodes hpushed rfl hnew
  have hapart : ([] ++ attributes).Pairwise
      (fun a b : Name × String => a.1.sameExpanded b.1 = false) := hattributes
  have hset := setAttributes_nodes hdeclared rfl hapart
  simpa [elementNode, tops] using hset

/-- What a document is after trees were grafted below one of its nodes. -/
def Grafted (doc : Document) (parent : NodeId) (trees : List Tree) (result : Document) : Prop :=
  result.nodes.toList =
    doc.nodes.toList.modify parent (addChildren (tops doc.size trees)) ++
      layoutAll parent doc.size trees

theorem Grafted.size {doc result : Document} {parent : NodeId} {trees : List Tree}
    (h : Grafted doc parent trees result) : result.size = doc.size + weightOfAll trees := by
  rw [Document.size, ← Array.length_toList, h]
  simp [length_layoutAll, Document.size]

theorem Grafted.append {doc mid result : Document} {parent : NodeId} {xs ys : List Tree}
    (hparent : parent < doc.size) (hx : Grafted doc parent xs mid)
    (hy : Grafted mid parent ys result) : Grafted doc parent (xs ++ ys) result := by
  have hp : parent < (doc.nodes.toList.modify parent (addChildren (tops doc.size xs))).length := by
    rw [List.length_modify]
    exact hparent
  rw [Grafted, hy, hx, modify_append hp, List.modify_modify_eq, addChildren_addChildren, hx.size,
    tops_append, layoutAll_append, List.append_assoc]

/-- Grafting one tree that is no text leaves a last child that is no text. -/
theorem Grafted.endsOpen {doc result : Document} {parent : NodeId} {tree : Tree}
    (hparent : parent < doc.size) (htext : tree.isText = false)
    (h : Grafted doc parent [tree] result) : EndsOpen result parent := by
  have hlength : parent < doc.nodes.toList.length := hparent
  obtain ⟨first, rest, hlayout, hkind⟩ : ∃ first rest,
      layoutAll parent doc.size [tree] = first :: rest ∧ ∀ value, first.kind ≠ .text value := by
    cases tree with
    | text value => cases htext
    | comment value => exact ⟨_, _, rfl, by simp⟩
    | element name declarations attributes children =>
        exact ⟨_, _, rfl, by simp [elementNode]⟩
  have htops : tops doc.size [tree] = [doc.size] := by
    have hweight : tree.weight ≠ 0 := by
      intro hzero
      have hlen := length_layoutAll parent doc.size [tree]
      rw [hlayout, weightOfAll, hzero] at hlen
      cases hlen
    simp [tops, hweight]
  rw [Grafted, hlayout, htops] at h
  intro last hlast
  have hnode : (result.node parent).children.back? = some doc.size := by
    rw [node_eq, h, List.getElem?_append_left (by rw [List.length_modify]; exact hlength),
      List.getElem?_modify_eq, List.getElem?_eq_getElem hlength]
    simp [addChildren]
  have hlast : last = doc.size := by
    rw [hnode] at hlast
    exact (Option.some.inj hlast).symm
  have hnext : result.node doc.size = first := by
    have := node_of_nodes h
    rw [List.length_modify] at this
    exact this
  rw [isText, kind, hlast, hnext]
  cases hfirst : first.kind <;> simp_all

mutual

theorem graft_nodes (doc : Document) {parent : NodeId} (hparent : parent < doc.size) :
    (tree : Tree) → Proper tree → (tree.isText → EndsOpen doc parent) →
      Grafted doc parent [tree] (doc.graft parent tree).2
  | .text value, _, hopen => by
      by_cases hvalue : value.isEmpty = true
      · simp [Grafted, graft, appendText, hvalue, tops, weight, layoutAll, layout,
          addChildren_nil]
      · have happend : (doc.graft parent (.text value)).2 =
            (doc.pushChild parent (.text value)).2 := by
          rw [graft, appendText, if_neg hvalue]
          cases hback : (doc.node parent).children.back? with
          | none => rfl
          | some last =>
              have hlast := hopen rfl last hback
              rw [isText] at hlast
              cases hkind : doc.kind last <;> simp_all
        rw [Grafted, happend, pushChild_nodes doc _ hparent]
        simp [tops, weight, layoutAll, layout, hvalue]
  | .comment value, _, _ => pushChild_nodes doc _ hparent
  | .element name declarations attributes children, hproper, _ => by
      obtain ⟨hdeclarations, hattributes, hapart, hchildren⟩ := hproper
      have hopened := opened_nodes doc hparent name hdeclarations hattributes
      have hsize : (opened doc parent name declarations attributes).size =
          doc.size + 1 + attributes.length := by
        rw [Document.size, ← Array.length_toList, hopened]
        simp [Document.size]
        omega
      have hlength :
          (doc.nodes.toList.modify parent (addChildren [doc.size])).length = doc.size := by
        rw [List.length_modify]
        rfl
      have hnode := node_of_nodes hopened
      rw [hlength] at hnode
      have hparent : doc.size < (opened doc parent name declarations attributes).size := by
        show (doc.size : Nat) < _
        omega
      have hgrafted := graftAll_nodes (opened doc parent name declarations attributes)
        hparent children hchildren hapart
        (fun _ _ _ last hlast => by simp [hnode, elementNode, tops] at hlast)
      have hmodify := modify_at (doc.nodes.toList.modify parent (addChildren [doc.size]))
        (attributes.map (attributeNode doc.size))
        (elementNode parent doc.size name declarations attributes.length [])
        (addChildren (tops (doc.size + 1 + attributes.length) children))
      rw [hlength] at hmodify
      rw [Grafted, hopened, hsize, hmodify] at hgrafted
      refine Eq.trans hgrafted ?_
      simp [tops, weight, layoutAll, layout, elementNode, addChildren]

theorem graftAll_nodes (doc : Document) {parent : NodeId} (hparent : parent < doc.size) :
    (trees : List Tree) → ProperAll trees → TextsApart trees →
      (∀ tree ∈ trees.head?, tree.isText → EndsOpen doc parent) →
        Grafted doc parent trees (doc.graftAll parent trees)
  | [], _, _, _ => by
      simp [Grafted, graftAll, tops, layoutAll, addChildren_nil]
  | tree :: rest, hproper, hapart, hopen => by
      have hfirst := graft_nodes doc hparent tree hproper.1 (hopen tree rfl)
      have hsize : parent < (doc.graft parent tree).2.size := by
        rw [hfirst.size]
        exact Nat.lt_of_lt_of_le hparent (Nat.le_add_right _ _)
      refine hfirst.append hparent
        (graftAll_nodes _ hsize rest hproper.2 hapart.tail fun next hnext htext => ?_)
      -- a text comes next, so what was just grafted is none
      refine hfirst.endsOpen hparent ?_
      cases rest with
      | nil => cases hnext
      | cons second rest =>
          cases hnext
          have := (List.isChain_cons_cons.mp hapart).1
          simpa [htext] using this

end

end Document

end Schematron.Xml
