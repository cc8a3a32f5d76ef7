import Schematron.Proofs.Xml.DocumentOrder
import Schematron.Proofs.Xml.Elements
import Schematron.Proofs.Xml.Grafting
import Schematron.Proofs.Xml.Resolution
import Schematron.Xml.Writer

/-!
# Copies between documents

An element that is copied to another document becomes the last child of the node it is copied below,
with everything that is below it, and nothing else changes there (`Document.importNode_element`).
In the document it comes from, the element and what is below it are a block of indices. The copies
are a block at the end, in the same order, and each node is copied as it is, but that an element
declares all that is in scope for it. So what a prefix stands for at an element it stands for at
the copy, whatever is declared around that.
-/

namespace Schematron.Xml

namespace Document

open Xml.Tree

/-! ## Trees with their scope -/

/-- The declaration has a prefix that none of the others declares. -/
def NewTo (done : List Declaration) (d : Declaration) : Bool := !done.any (·.pre == d.pre)

theorem addDeclaration_append (done mid : List Declaration) (d : Declaration) :
    addDeclaration (done ++ mid.filter (NewTo done)) d =
      done ++ (addDeclaration mid d).filter (NewTo done) := by
  cases hnew : NewTo done d with
  | false =>
      have hany : done.any (·.pre == d.pre) = true := by simpa [NewTo] using hnew
      rw [addDeclaration, addDeclaration, List.any_append, hany, Bool.true_or, if_pos rfl]
      split
      · rfl
      · rw [List.filter_append, List.filter_cons_of_neg (by simp [hnew]), List.filter_nil,
          List.append_nil]
  | true =>
      have hany : done.any (·.pre == d.pre) = false := by simpa [NewTo] using hnew
      -- what is left of the others has the same prefixes, as far as this one is concerned
      have hmid : (mid.filter (NewTo done)).any (·.pre == d.pre) = mid.any (·.pre == d.pre) := by
        rw [List.any_filter]
        refine List.any_congr rfl fun other => ?_
        cases hsame : other.pre == d.pre with
        | false => rw [Bool.and_false]
        | true =>
            have hother : NewTo done other = NewTo done d := by
              rw [NewTo, NewTo, beq_iff_eq.mp hsame]
            rw [hother, hnew, Bool.and_self]
      rw [addDeclaration, addDeclaration, List.any_append, hany, Bool.false_or, hmid]
      split
      · rfl
      · rw [List.filter_append, List.filter_cons_of_pos hnew, List.filter_nil, List.append_assoc]

theorem foldl_addDeclaration_append (done mid declarations : List Declaration) :
    declarations.foldl addDeclaration (done ++ mid.filter (NewTo done)) =
      done ++ (declarations.foldl addDeclaration mid).filter (NewTo done) := by
  induction declarations generalizing mid with
  | nil => rfl
  | cons d rest ih => rw [List.foldl_cons, List.foldl_cons, ← ih, addDeclaration_append]

/-- Of declarations behind others those count whose prefix the others do not declare. -/
theorem firstOfEach_append (inner outer : List Declaration) :
    firstOfEach (inner ++ outer) =
      firstOfEach inner ++ (firstOfEach outer).filter (NewTo (firstOfEach inner)) := by
  have hall := foldl_addDeclaration_append (firstOfEach inner) [] outer
  rw [List.filter_nil, List.append_nil] at hall
  rw [firstOfEach, List.foldl_append]
  exact hall

/-- An element declares what is in scope for it. -/
theorem inScope_element (outer : List Declaration) (name : Name) (declarations : List Declaration)
    (attributes : List (Name × String)) (children : List Tree) :
    inScope (firstOfEach outer) (.element name declarations attributes children) =
      .element name (firstOfEach (declarations ++ outer)) attributes
        (allInScope (firstOfEach (declarations ++ outer)) children) := by
  rw [inScope, firstOfEach_append]
  rfl

theorem isText_inScope (scope : List Declaration) (tree : Tree) :
    (inScope scope tree).isText = tree.isText := by
  cases tree <;> rfl

mutual

theorem weight_inScope : (tree : Tree) → (scope : List Declaration) →
    (inScope scope tree).weight = tree.weight
  | .element name declarations attributes children, scope => by
      rw [inScope, weight, weight, weightOfAll_allInScope children]
  | .text _, _ => rfl
  | .comment _, _ => rfl

theorem weightOfAll_allInScope : (trees : List Tree) → (scope : List Declaration) →
    weightOfAll (allInScope scope trees) = weightOfAll trees
  | [], _ => rfl
  | tree :: rest, scope => by
      rw [allInScope, weightOfAll, weightOfAll, weight_inScope tree, weightOfAll_allInScope rest]

end

theorem tops_allInScope (scope : List Declaration) (trees : List Tree) (start : Nat) :
    tops start (allInScope scope trees) = tops start trees := by
  induction trees generalizing start with
  | nil => rfl
  | cons tree rest ih => rw [allInScope, tops, tops, weight_inScope, ih]

theorem textsApart_allInScope (scope : List Declaration) {trees : List Tree}
    (h : TextsApart trees) : TextsApart (allInScope scope trees) := by
  have hmap : allInScope scope trees = trees.map (inScope scope) := by
    induction trees with
    | nil => rfl
    | cons tree rest ih => rw [allInScope, List.map_cons, ih h.tail]
  rw [TextsApart, hmap, List.isChain_map]
  simp only [isText_inScope]
  exact h

mutual

theorem proper_inScope : (tree : Tree) → (outer : List Declaration) → Proper tree →
    Proper (inScope (firstOfEach outer) tree)
  | .element name declarations attributes children, outer, h => by
      rw [inScope_element]
      exact ⟨pairwise_firstOfEach _, h.2.1, textsApart_allInScope _ h.2.2.1,
        properAll_allInScope children _ h.2.2.2⟩
  | .text _, _, _ => trivial
  | .comment _, _, _ => trivial

theorem properAll_allInScope : (trees : List Tree) → (outer : List Declaration) →
    ProperAll trees → ProperAll (allInScope (firstOfEach outer) trees)
  | [], _, _ => trivial
  | tree :: rest, outer, h =>
      ⟨proper_inScope tree outer h.1, properAll_allInScope rest outer h.2⟩

end

/-! ## Blocks that are moved -/

/-- From an index on, nodes are moved to those from another one on, in order. -/
def Moves (move : Nat → Nat) (start start' : Nat) : Prop := ∀ i, move (start + i) = start' + i

namespace Moves

variable {move : Nat → Nat} {start start' : Nat}

theorem start_eq (h : Moves move start start') : move start = start' := h 0

theorem behind (h : Moves move start start') (n : Nat) : Moves move (start + n) (start' + n) := by
  intro i
  rw [Nat.add_assoc, h, Nat.add_assoc]

theorem map_range' (h : Moves move start start') (n : Nat) :
    (List.range' start n).map move = List.range' start' n := by
  induction n generalizing start start' with
  | zero => rfl
  | succ n ih => rw [List.range'_succ, List.range'_succ, List.map_cons, h.start_eq, ih (h.behind 1)]

/-- The top nodes of trees. -/
theorem map_tops (h : Moves move start start') (trees : List Tree) :
    (tops start trees).map move = tops start' trees := by
  induction trees generalizing start start' with
  | nil => rfl
  | cons tree rest ih =>
      rw [tops, tops, List.map_append, ih (h.behind _)]
      split
      · rfl
      · rw [List.map_singleton, h.start_eq]

end Moves

variable {source result : Document} {parent start : NodeId}

/-! ## Nodes of copies -/

/-- What a node is, where an element declares what is in scope for it. -/
def scopedKind (doc : Document) (id : NodeId) : NodeKind :=
  match doc.kind id with
  | .element name _ => .element name (doc.namespacesInScope id)
  | kind => kind

/-- The copy of a node, whose links lead where the nodes are moved to. -/
structure IsCopy (source result : Document) (move : NodeId → NodeId) (id : NodeId) : Prop where
  kind : result.kind (move id) = source.scopedKind id
  parent? : result.parent? (move id) = (source.parent? id).map move
  children : result.children (move id) = (source.children id).map move
  attributes : result.attributes (move id) = (source.attributes id).map move

theorem isCopy_of_leaf {move : NodeId → NodeId} {id : NodeId} (kind : NodeKind)
    (hkind : ∀ name declarations, kind ≠ .element name declarations)
    (h : source.node id = { kind, parent := some parent })
    (h' : result.node (move id) = { kind, parent := some (move parent) }) :
    source.IsCopy result move id where
  kind := by
    rw [Document.kind, h', scopedKind, Document.kind, h]
    split
    · next hsame => exact absurd hsame (hkind _ _)
    · rfl
  parent? := by
    rw [Document.parent?, Document.parent?, h, h']
    rfl
  children := by
    rw [Document.children, Document.children, h, h']
    rfl
  attributes := by
    rw [Document.attributes, Document.attributes, h, h']
    rfl

mutual

theorem isCopy_tree (hlinked : Linked source) {move : Nat → Nat} {parent start start' : Nat} :
    (tree : Tree) → Solid tree → source.Holds parent start tree →
      result.Holds (move parent) start' (inScope (firstOfEach (source.around parent)) tree) →
      Moves move start start' →
      ∀ id : Nat, start ≤ id → id < start + tree.weight → source.IsCopy result move id
  | .text value, hsolid, h, h', hmove => by
      intro id hle hlt
      have hvalue : value.isEmpty = false := hsolid
      obtain rfl : id = start := by
        rw [weight, hvalue, if_neg Bool.false_ne_true] at hlt
        omega
      rw [inScope] at h'
      · rw [Holds, layout, hvalue] at h h'
        refine isCopy_of_leaf (.text value) nofun (HasBlock.node_eq h) ?_
        rw [hmove.start_eq]
        exact HasBlock.node_eq h'
      · nofun
  | .comment value, _, h, h', hmove => by
      intro id hle hlt
      obtain rfl : id = start := by
        rw [weight] at hlt
        omega
      rw [inScope] at h'
      · refine isCopy_of_leaf (.comment value) nofun (HasBlock.node_eq h) ?_
        rw [hmove.start_eq]
        exact HasBlock.node_eq h'
      · nofun
  | .element name declarations attributes children, hsolid, h, h', hmove => by
      intro id hle hlt
      rw [inScope_element] at h'
      have haround := h.around_eq hlinked
      rw [← haround] at h'
      have hcontent := h'.content
      rw [← hmove.start_eq] at hcontent
      rw [weight] at hlt
      -- the element itself, one of its attributes, or a node of its content
      rcases Nat.lt_or_ge id (start + 1) with hfirst | hbehind
      · obtain rfl : id = start := by omega
        refine ⟨?_, ?_, ?_, ?_⟩
        · rw [hmove.start_eq, h'.element_kind, scopedKind, h.element_kind]
          rfl
        · rw [hmove.start_eq, h'.parent?_eq, h.parent?_eq]
          rfl
        · rw [hmove.start_eq, h'.element_children, h.element_children, tops_allInScope,
            Nat.add_assoc, Nat.add_assoc, (hmove.behind _).map_tops]
        · rw [hmove.start_eq, h'.element_attributes, h.element_attributes,
            (hmove.behind 1).map_range']
      rcases Nat.lt_or_ge id (start + 1 + attributes.length) with hattribute | hcontent
      · obtain ⟨i, rfl⟩ := Nat.exists_eq_add_of_le hbehind
        have hi : i < attributes.length := by omega
        refine isCopy_of_leaf (.attribute attributes[i].1 attributes[i].2) nofun
          (h.attribute_node hi) ?_
        rw [Nat.add_assoc, hmove, ← Nat.add_assoc, hmove.start_eq]
        exact h'.attribute_node hi
      · exact isCopy_trees hlinked children hsolid h.content (hmove.start_eq ▸ h'.content)
          ((hmove.behind 1).behind _) id hcontent (by omega)

/-- The nodes of trees are copied to the nodes of these trees in their scope. -/
theorem isCopy_trees (hlinked : Linked source) {move : Nat → Nat} {parent start start' : Nat} :
    (trees : List Tree) → SolidAll trees → source.HoldsAll parent start trees →
      result.HoldsAll (move parent) start' (allInScope (firstOfEach (source.around parent)) trees) →
      Moves move start start' →
      ∀ id : Nat, start ≤ id → id < start + weightOfAll trees → source.IsCopy result move id
  | [], _, _, _, _ => by
      intro id hle hlt
      rw [weightOfAll] at hlt
      omega
  | tree :: rest, hsolid, h, h', hmove => by
      intro id hle hlt
      rw [weightOfAll] at hlt
      rcases Nat.lt_or_ge id (start + tree.weight) with hfirst | hrest
      · exact isCopy_tree hlinked tree hsolid.1 h.head h'.head hmove id hle hfirst
      · have hbehind := h'.tail
        rw [weight_inScope] at hbehind
        exact isCopy_trees hlinked rest hsolid.2 h.tail hbehind (hmove.behind _) id hrest (by omega)

end

/-! ## Copying an element -/

/-- Where the copies of nodes are, of which the first is `origin`: from the index `next` on. What is
above them stands for the node that the copy is made below. -/
def copyAt (origin parent next id : NodeId) : NodeId :=
  if id < origin then parent else next + (id - origin)

theorem moves_copyAt (origin parent next : NodeId) :
    Moves (copyAt origin parent next) origin next := by
  intro i
  rw [copyAt, if_neg (Nat.not_lt.mpr (Nat.le_add_right _ _)), Nat.add_sub_cancel_left]

/-- The document `result` is `target` with copies of `n` nodes of `source`, those from `origin` on.
The first copy is the new last child of `parent`, and the others are below it. -/
structure Copied (source : Document) (origin n : Nat) (target : Document) (parent : NodeId)
    (result : Document) : Prop where
  size : result.size = target.size + n
  others : ∀ id < target.size, id ≠ parent → result.node id = target.node id
  listed : result.node parent =
    { target.node parent with children := (target.node parent).children.push target.size }
  top : result.parent? target.size = some parent
  visited : result.Visited [target.size] (List.range' target.size n)
  copies : ∀ id ∈ List.range' origin n, source.IsCopy result (copyAt origin parent target.size) id
  scopes : ∀ id ∈ List.range' origin n, source.isElement id = true → ∀ pre uri,
    Scope.lookup? (source.namespacesInScope id) pre = some uri →
      Scope.lookup? (result.namespacesInScope (copyAt origin parent target.size id)) pre = some uri

/-- What a prefix stands for at an element it stands for at its copy. -/
theorem IsCopy.lookup? {move : NodeId → NodeId} {id : NodeId} (h : source.IsCopy result move id)
    (helement : source.isElement id = true) {pre : Option String} {uri : String}
    (hlookup : Scope.lookup? (source.namespacesInScope id) pre = some uri) :
    Scope.lookup? (result.namespacesInScope (move id)) pre = some uri := by
  have hdeclared : result.declarations (move id) = source.namespacesInScope id := by
    cases hkind : source.kind id with
    | element name declarations => simp only [Document.declarations, h.kind, scopedKind, hkind]
    | _ =>
        rw [isElement, hkind] at helement
        cases helement
  obtain ⟨d, hd, huri⟩ := Option.map_eq_some_iff.mp hlookup
  rw [lookup?_namespacesInScope, around, List.flatMap_cons, hdeclared, Scope.lookup?,
    List.find?_append, hd]
  exact congrArg some huri

/-- An element stands with its tree below its parent. -/
theorem MadeOf.exists_holds {trees : List Tree} (h : source.MadeOf trees) {id : NodeId}
    (hid : source.isElement id = true) : ∃ above tree, source.Holds above id tree ∧
      source.tree? id = some tree ∧ tree.isAnyElement = true ∧ Solid tree := by
  have hmem : id ∈ (List.range source.size).filter source.isElement := by
    refine List.mem_filter.mpr ⟨List.mem_range.mpr ?_, hid⟩
    refine lt_size_of_kind rfl fun hkind => ?_
    rw [isElement, hkind] at hid
    cases hid
  obtain ⟨site, -, hat⟩ := forall₂_mem_left h.forall₂_at hmem
  have htree := hat.tree?_eq
  obtain ⟨⟨above, hholds, -⟩, helement, hsolid⟩ := hat
  exact ⟨above, site.tree, hholds, htree, helement, hsolid⟩

/-- The block of an element, grafted with the scope it stands in. -/
theorem copied_of_grafted (hlinked : Linked source) {above origin : NodeId} {name : Name}
    {declarations : List Declaration} {attributes : List (Name × String)} {children : List Tree}
    (hholds : source.Holds above origin (.element name declarations attributes children))
    (hsolid : SolidAll children) {target : Document} (hparent : parent < target.size)
    (hgrafted : Grafted target parent [inScope (firstOfEach (source.around above))
      (.element name declarations attributes children)] result) :
    Copied source origin (Tree.element name declarations attributes children).weight target parent
      result := by
  have hcopy := hgrafted.holdsAll.head
  have hsize := hgrafted.size
  have habove : copyAt origin parent target.size above = parent :=
    if_pos (hlinked.parent_lt hholds.parent?_eq)
  have hcopies : ∀ id ∈ List.range' origin
      (Tree.element name declarations attributes children).weight,
      source.IsCopy result (copyAt origin parent target.size) id := by
    intro id hid
    obtain ⟨hle, hlt⟩ := List.mem_range'_1.mp hid
    exact isCopy_tree hlinked (.element name declarations attributes children) hsolid hholds
      (habove.symm ▸ hcopy) (moves_copyAt _ _ _) id hle hlt
  have hvisited := visited_tree _ hcopy [] [] .nil
  have hweight : (inScope (firstOfEach (source.around above))
      (.element name declarations attributes children)).weight ≠ 0 := by
    rw [weight_inScope, weight]
    omega
  rw [List.append_nil, List.append_nil, if_neg hweight, weight_inScope] at hvisited
  refine ⟨?_, fun id hid hne => ?_, ?_, ?_, hvisited, hcopies, fun id hid helement pre uri => ?_⟩
  · rw [hsize, weightOfAll, weight_inScope]
    rfl
  · rw [hgrafted.node_eq hid, if_neg hne]
  · rw [hgrafted.node_eq hparent, if_pos rfl, tops, if_neg hweight, addChildren,
      Array.push_eq_append]
    rfl
  · rw [inScope_element] at hcopy
    exact hcopy.parent?_eq
  · exact (hcopies id hid).lookup? helement

/-- **Copying an element.** An element of a document that was read, copied below a node of any
document, is the new last child of that node, and nothing else changes in what the document held.
The tree at the element is copied node by node, in order. -/
theorem importNode_element {text : String} (h : parse text = .ok source) {origin : NodeId}
    (horigin : source.isElement origin = true) {target : Document}
    (hparent : parent < target.size) :
    (target.importNode parent source origin).1 = some target.size ∧
      ∃ n, source.Visited [origin] (List.range' origin n) ∧
        Copied source origin n target parent (target.importNode parent source origin).2 := by
  obtain ⟨trees, hdoc, htop, hreadable⟩ := exists_trees_of_parse h
  have hproper := ReadableAll.proper trees hreadable
  have hmade : source.MadeOf trees := hdoc ▸ madeOf_graftAll hproper htop.textsApart
    (ReadableAll.solid trees hreadable)
  obtain ⟨above, tree, hholds, htree, helement, hsolid⟩ := hmade.exists_holds horigin
  have hwhole := ProperAll.allElements trees hproper tree
    ((hmade.mem_preorderOfAll helement).mpr ⟨origin, htree⟩) helement
  cases tree with
  | text => cases helement
  | comment => cases helement
  | element name declarations attributes children =>
      have habove := hholds.parent?_eq
      have himport : target.importNode parent source origin = target.graft parent
          (inScope (firstOfEach (source.around above))
            (.element name declarations attributes children)) := by
        rw [importNode, hholds.element_kind]
        dsimp only
        rw [htree, outerScope, habove]
        rfl
      have hgrafted := graft_nodes target hparent _
        (proper_inScope _ (source.around above) hwhole) fun htext => by
          rw [isText_inScope] at htext
          cases htext
      have hvisited := visited_tree _ hholds [] [] .nil
      rw [List.append_nil, List.append_nil, if_neg hsolid.weight_ne_zero] at hvisited
      rw [himport]
      refine ⟨?_, _, hvisited, copied_of_grafted hmade.linked hholds hsolid hparent hgrafted⟩
      rw [inScope_element]
      rfl

/-- The prefix of an attribute is declared around the element that is copied, and stands for
something else where the copy comes. -/
theorem importNode_element_prefixed :
    let target := ((empty.appendElement 0 (.plain "x")).2.declare 1 ⟨some "p", "v"⟩)
    ∃ source, parse "<r xmlns:p='u'><a p:k='1'>t<!--c--><b/></a></r>" = .ok source ∧
      source.isElement 2 = true ∧ 1 < target.size ∧
      (target.importNode 1 source 2).2.toXml =
        "<x xmlns:p=\"v\"><a xmlns:p=\"u\" p:k=\"1\">t<!--c--><b xmlns:p=\"u\"/></a></x>" ∧
      (target.importNode 1 source 2).1 = some target.size ∧
      ∃ n, source.Visited [2] (List.range' 2 n) ∧
        Copied source 2 n target 1 (target.importNode 1 source 2).2 := by
  let source : Document := ⟨#[
    { kind := .document, children := #[1] },
    { kind := .element (.plain "r") [⟨some "p", "u"⟩], parent := some 0, children := #[2] },
    { kind := .element (.plain "a") [], parent := some 1, children := #[4, 5, 6],
      attributes := #[3] },
    { kind := .attribute (.qualified "p" "k" "u") "1", parent := some 2 },
    { kind := .text "t", parent := some 2 },
    { kind := .comment "c", parent := some 2 },
    { kind := .element (.plain "b") [], parent := some 2 }]⟩
  have hread : parse "<r xmlns:p='u'><a p:k='1'>t<!--c--><b/></a></r>" = .ok source := rfl
  exact ⟨source, hread, rfl, by decide, by decide +kernel,
    importNode_element hread rfl (by decide)⟩

end Document

end Schematron.Xml
