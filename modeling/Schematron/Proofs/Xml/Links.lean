import Schematron.Xml.Traversal

/-!
# Links

What holds of the links between the nodes of a document that was built from the top down
(`Linked`): they make a tree, whose root is the document node.

Documents are built by adding nodes at the end of a list of their parent (`pushListed`) and by
changing what a node carries of its own (`setKind`). For both it is said what can be read of the
document afterwards, and the invariant is kept by both.
-/

namespace Schematron.Xml

/-- The kind is that of an attribute. -/
def NodeKind.isAttribute : NodeKind → Bool
  | .attribute .. => true
  | _ => false

/-- The name of an element or attribute. -/
def NodeKind.name? : NodeKind → Option Name
  | .element name _ | .attribute name _ => some name
  | _ => none

theorem Name.sameExpanded_comm (a b : Name) : a.sameExpanded b = b.sameExpanded a := by
  rw [Name.sameExpanded, Name.sameExpanded, BEq.comm, BEq.comm (a := a.uri)]

namespace Document

theorem name?_eq (doc : Document) (id : NodeId) : doc.name? id = (doc.kind id).name? := by
  rw [name?]
  cases doc.kind id <;> rfl

variable {doc : Document} {parent element id : NodeId} {kind : NodeKind}

/-! ## Reading a document that has changed -/

theorem node_of_size_le (h : doc.size ≤ id) : doc.node id = { kind := .document } := by
  rw [node, Array.getElem?_eq_none h]
  rfl

theorem name?_of_size_le (h : doc.size ≤ id) : doc.name? id = none := by
  rw [name?_eq, Document.kind, node_of_size_le h]
  rfl

theorem lt_size_of_name? {name : Name} (h : doc.name? id = some name) : id < doc.size :=
  Nat.lt_of_not_le fun hle => Option.some_ne_none name (h.symm.trans (name?_of_size_le hle))

theorem node_push (doc : Document) (parent : NodeId) (kind : NodeKind) (id : NodeId) :
    (doc.push parent kind).2.node id =
      if id = doc.size then { kind, parent := some parent } else doc.node id := by
  show (doc.nodes.push _)[id]?.getD _ = _
  rw [Array.getElem?_push, ← size]
  by_cases h : id = doc.size
  · rw [if_pos h, if_pos h]
    rfl
  · rw [if_neg h, if_neg h]
    rfl

theorem node_modify (doc : Document) (target : NodeId) (f : Node → Node)
    (htarget : target < doc.size) (id : NodeId) :
    (Document.mk (doc.nodes.modify target f)).node id =
      if id = target then f (doc.node id) else doc.node id := by
  show (doc.nodes.modify target f)[id]?.getD _ = _
  rw [Array.getElem?_modify]
  by_cases h : id = target
  · have hid : id < doc.nodes.size := h ▸ htarget
    rw [if_pos h, if_pos h.symm, node, Array.getElem?_eq_getElem hid]
    rfl
  · rw [if_neg h, if_neg (Ne.symm h)]
    rfl

theorem size_push (doc : Document) (parent : NodeId) (kind : NodeKind) :
    (doc.push parent kind).2.size = doc.size + 1 :=
  Array.size_push _

/-- A new node that its parent is made to list. -/
theorem node_push_modify (hparent : parent < doc.size) (kind : NodeKind) (f : Node → Node)
    (id : NodeId) :
    (Document.mk ((doc.push parent kind).2.nodes.modify parent f)).node id =
      if id = parent then f (doc.node id)
      else if id = doc.size then { kind, parent := some parent }
      else doc.node id := by
  have hpushed : parent < (doc.push parent kind).2.size := by
    rw [size_push]
    exact Nat.lt_succ_of_lt hparent
  rw [node_modify _ _ _ hpushed, node_push]
  by_cases h : id = parent
  · rw [if_pos h, if_pos h, if_neg (h ▸ Nat.ne_of_lt hparent)]
  · rw [if_neg h, if_neg h]

/-- A node with one more attribute or child. -/
def listNode (asAttribute : Bool) (id : NodeId) (n : Node) : Node :=
  if asAttribute then { n with attributes := n.attributes.push id }
  else { n with children := n.children.push id }

/-- Adds a node as the last attribute or the last child of `parent`. -/
def pushListed (doc : Document) (asAttribute : Bool) (parent : NodeId) (kind : NodeKind) :
    Document :=
  ⟨(doc.push parent kind).2.nodes.modify parent (listNode asAttribute doc.size)⟩

theorem pushChild_eq (doc : Document) (parent : NodeId) (kind : NodeKind) :
    (doc.pushChild parent kind).2 = doc.pushListed false parent kind := rfl

theorem setAttribute_of_none {name : Name} (h : doc.findAttribute? element name = none)
    (value : String) :
    (doc.setAttribute element name value).2 =
      doc.pushListed true element (.attribute name value) := by
  rw [setAttribute, h]
  rfl

theorem size_pushListed (doc : Document) (asAttribute : Bool) (parent : NodeId) (kind : NodeKind) :
    (doc.pushListed asAttribute parent kind).size = doc.size + 1 := by
  rw [pushListed, size, Array.size_modify, ← size, size_push]

section NewNode

variable (asAttribute : Bool) (hparent : parent < doc.size) (kind : NodeKind) (id : NodeId)

include hparent

theorem node_pushListed :
    (doc.pushListed asAttribute parent kind).node id =
      if id = parent then listNode asAttribute doc.size (doc.node id)
      else if id = doc.size then { kind, parent := some parent }
      else doc.node id :=
  node_push_modify hparent kind _ id

theorem kind_pushListed :
    (doc.pushListed asAttribute parent kind).kind id =
      if id = doc.size then kind else doc.kind id := by
  have hne : parent ≠ doc.size := Nat.ne_of_lt hparent
  rw [Document.kind, node_pushListed asAttribute hparent]
  by_cases h : id = parent
  · subst h
    rw [if_pos rfl, if_neg hne, listNode]
    cases asAttribute <;> rfl
  · rw [if_neg h]
    split <;> rfl

theorem parent?_pushListed :
    (doc.pushListed asAttribute parent kind).parent? id =
      if id = doc.size then some parent else doc.parent? id := by
  have hne : parent ≠ doc.size := Nat.ne_of_lt hparent
  rw [parent?, node_pushListed asAttribute hparent]
  by_cases h : id = parent
  · subst h
    rw [if_pos rfl, if_neg hne, listNode]
    cases asAttribute <;> rfl
  · rw [if_neg h]
    split <;> rfl

theorem name?_pushListed :
    (doc.pushListed asAttribute parent kind).name? id =
      if id = doc.size then kind.name? else doc.name? id := by
  rw [name?_eq, kind_pushListed asAttribute hparent, apply_ite NodeKind.name?, ← name?_eq]

theorem children_pushListed :
    (doc.pushListed asAttribute parent kind).children id =
      if id = parent ∧ asAttribute = false then doc.children id ++ [doc.size]
      else doc.children id := by
  rw [children, node_pushListed asAttribute hparent]
  by_cases h : id = parent
  · rw [if_pos h, listNode]
    cases asAttribute <;> simp [h, children]
  · rw [if_neg h, if_neg (c := id = parent ∧ _) fun hboth => h hboth.1]
    by_cases hnew : id = doc.size
    · rw [if_pos hnew, hnew, children, node_of_size_le (Nat.le_refl _)]
    · rw [if_neg hnew]
      rfl

theorem attributes_pushListed :
    (doc.pushListed asAttribute parent kind).attributes id =
      if id = parent ∧ asAttribute = true then doc.attributes id ++ [doc.size]
      else doc.attributes id := by
  rw [attributes, node_pushListed asAttribute hparent]
  by_cases h : id = parent
  · rw [if_pos h, listNode]
    cases asAttribute <;> simp [h, attributes]
  · rw [if_neg h, if_neg (c := id = parent ∧ _) fun hboth => h hboth.1]
    by_cases hnew : id = doc.size
    · rw [if_pos hnew, hnew, attributes, node_of_size_le (Nat.le_refl _)]
    · rw [if_neg hnew]
      rfl

end NewNode

section NewKind

variable (target : NodeId) (kind : NodeKind) (id : NodeId)

theorem node_setKind (htarget : target < doc.size) :
    (doc.setKind target kind).node id =
      if id = target then { doc.node id with kind := kind } else doc.node id :=
  node_modify doc target _ htarget id

theorem kind_setKind (htarget : target < doc.size) :
    (doc.setKind target kind).kind id = if id = target then kind else doc.kind id := by
  rw [Document.kind, node_setKind _ _ _ htarget]
  split <;> rfl

theorem name?_setKind (htarget : target < doc.size) (hname : kind.name? = doc.name? target) :
    (doc.setKind target kind).name? id = doc.name? id := by
  rw [name?_eq, kind_setKind _ _ _ htarget]
  by_cases h : id = target
  · rw [if_pos h, hname, h]
  · rw [if_neg h, name?_eq]

theorem parent?_setKind (htarget : target < doc.size) :
    (doc.setKind target kind).parent? id = doc.parent? id := by
  rw [parent?, node_setKind _ _ _ htarget]
  split <;> rfl

theorem children_setKind (htarget : target < doc.size) :
    (doc.setKind target kind).children id = doc.children id := by
  rw [children, node_setKind _ _ _ htarget]
  split <;> rfl

theorem attributes_setKind (htarget : target < doc.size) :
    (doc.setKind target kind).attributes id = doc.attributes id := by
  rw [attributes, node_setKind _ _ _ htarget]
  split <;> rfl

theorem size_setKind : (doc.setKind target kind).size = doc.size :=
  Array.size_modify

end NewKind

/-! ## The invariant -/

/-- The links make a tree with the document node for its root. A node stands after its parent, in
one of the two lists of the parent and there once. -/
structure Linked (doc : Document) : Prop where
  size_pos : 0 < doc.size
  kind_root : doc.kind rootNode = .document
  parent?_root : doc.parent? rootNode = none
  kind_ne : ∀ id, rootNode < id → id < doc.size → doc.kind id ≠ .document
  parent?_lt : ∀ id, rootNode < id → id < doc.size → ∃ p < id, doc.parent? id = some p
  mem_children : ∀ p id,
    id ∈ doc.children p ↔ doc.parent? id = some p ∧ (doc.kind id).isAttribute = false
  mem_attributes : ∀ p id,
    id ∈ doc.attributes p ↔ doc.parent? id = some p ∧ (doc.kind id).isAttribute = true
  nodup_children : ∀ p, (doc.children p).Nodup
  nodup_attributes : ∀ p, (doc.attributes p).Nodup

theorem node_empty (id : NodeId) : Document.empty.node id = { kind := .document } := by
  by_cases h : id = rootNode
  · rw [h]
    rfl
  · exact node_of_size_le (Nat.one_le_iff_ne_zero.mpr h)

theorem Linked.empty : Linked .empty := by
  refine ⟨by decide, rfl, rfl, ?_, ?_, ?_, ?_, ?_, ?_⟩
  · intro id hpos hlt
    exact absurd (Nat.lt_of_lt_of_le hpos (Nat.le_of_lt_succ hlt)) (Nat.lt_irrefl 0)
  · intro id hpos hlt
    exact absurd (Nat.lt_of_lt_of_le hpos (Nat.le_of_lt_succ hlt)) (Nat.lt_irrefl 0)
  all_goals simp [children, attributes, parent?, node_empty]

theorem mem_ite_append {xs : List NodeId} {new id : NodeId} {c : Prop} [Decidable c]
    (h : new ∉ xs) : (id ∈ if c then xs ++ [new] else xs) ↔ if id = new then c else id ∈ xs := by
  by_cases hid : id = new
  · subst hid
    by_cases hc : c <;> simp [hc, h]
  · by_cases hc : c <;> simp [hc, hid]

theorem nodup_ite_append {xs : List NodeId} {new : NodeId} {c : Prop} [Decidable c]
    (h : new ∉ xs) (hxs : xs.Nodup) : (if c then xs ++ [new] else xs).Nodup := by
  split
  · refine List.nodup_append.mpr ⟨hxs, by simp, ?_⟩
    rintro x hx _ hnew rfl
    exact h (List.mem_singleton.mp hnew ▸ hx)
  · exact hxs

theorem Linked.pushListed (h : Linked doc) {asAttribute : Bool} (hparent : parent < doc.size)
    (hkind : kind ≠ .document) (hattribute : kind.isAttribute = asAttribute) :
    Linked (doc.pushListed asAttribute parent kind) := by
  have hsize := size_pushListed doc asAttribute parent kind
  -- nothing is known of the new index before, so no list holds it
  have hfresh : doc.parent? doc.size = none := by
    rw [parent?, node_of_size_le (Nat.le_refl _)]
  have hchild : ∀ p, doc.size ∉ doc.children p := by
    intro p hmem
    simp [((h.mem_children p _).mp hmem).1] at hfresh
  have hattr : ∀ p, doc.size ∉ doc.attributes p := by
    intro p hmem
    simp [((h.mem_attributes p _).mp hmem).1] at hfresh
  have hroot : rootNode ≠ doc.size := Nat.ne_of_lt h.size_pos
  have hold : ∀ id, id < (doc.pushListed asAttribute parent kind).size → id ≠ doc.size →
      id < doc.size := by
    intro id hlt hne
    rw [hsize] at hlt
    exact Nat.lt_of_le_of_ne (Nat.le_of_lt_succ hlt) hne
  constructor
  case size_pos => omega
  case kind_root => rw [kind_pushListed _ hparent, if_neg hroot, h.kind_root]
  case parent?_root => rw [parent?_pushListed _ hparent, if_neg hroot, h.parent?_root]
  case kind_ne =>
    intro id hpos hlt
    rw [kind_pushListed _ hparent]
    split
    · exact hkind
    · next hne => exact h.kind_ne id hpos (hold id hlt hne)
  case parent?_lt =>
    intro id hpos hlt
    rw [parent?_pushListed _ hparent]
    split
    · next hnew => exact ⟨parent, hnew ▸ hparent, rfl⟩
    · next hne => exact h.parent?_lt id hpos (hold id hlt hne)
  case mem_children =>
    intro p id
    rw [children_pushListed _ hparent, mem_ite_append (hchild p), parent?_pushListed _ hparent,
      kind_pushListed _ hparent]
    by_cases hid : id = doc.size
    · simp [hid, hattribute, eq_comm]
    · simp only [hid, if_false]
      exact h.mem_children p id
  case mem_attributes =>
    intro p id
    rw [attributes_pushListed _ hparent, mem_ite_append (hattr p), parent?_pushListed _ hparent,
      kind_pushListed _ hparent]
    by_cases hid : id = doc.size
    · simp [hid, hattribute, eq_comm]
    · simp only [hid, if_false]
      exact h.mem_attributes p id
  case nodup_children =>
    intro p
    rw [children_pushListed _ hparent]
    exact nodup_ite_append (hchild p) (h.nodup_children p)
  case nodup_attributes =>
    intro p
    rw [attributes_pushListed _ hparent]
    exact nodup_ite_append (hattr p) (h.nodup_attributes p)

theorem Linked.setKind (h : Linked doc) {target : NodeId} (htarget : target < doc.size)
    (hroot : target ≠ rootNode) (hkind : kind ≠ .document)
    (hattribute : kind.isAttribute = (doc.kind target).isAttribute) :
    Linked (doc.setKind target kind) := by
  have hsame : ∀ id, ((doc.setKind target kind).kind id).isAttribute =
      (doc.kind id).isAttribute := by
    intro id
    rw [kind_setKind _ _ _ htarget]
    split
    · next hid => rw [hid, hattribute]
    · rfl
  constructor
  case size_pos => rw [size_setKind]; exact h.size_pos
  case kind_root => rw [kind_setKind _ _ _ htarget, if_neg hroot.symm, h.kind_root]
  case parent?_root => rw [parent?_setKind _ _ _ htarget, h.parent?_root]
  case kind_ne =>
    intro id hpos hlt
    rw [kind_setKind _ _ _ htarget]
    split
    · exact hkind
    · exact h.kind_ne id hpos (by rwa [size_setKind] at hlt)
  case parent?_lt =>
    intro id hpos hlt
    rw [parent?_setKind _ _ _ htarget]
    exact h.parent?_lt id hpos (by rwa [size_setKind] at hlt)
  case mem_children =>
    intro p id
    rw [children_setKind _ _ _ htarget, parent?_setKind _ _ _ htarget, hsame]
    exact h.mem_children p id
  case mem_attributes =>
    intro p id
    rw [attributes_setKind _ _ _ htarget, parent?_setKind _ _ _ htarget, hsame]
    exact h.mem_attributes p id
  case nodup_children =>
    intro p
    rw [children_setKind _ _ _ htarget]
    exact h.nodup_children p
  case nodup_attributes =>
    intro p
    rw [attributes_setKind _ _ _ htarget]
    exact h.nodup_attributes p

namespace Linked

theorem lt_size_of_parent? (h : doc.parent? id = some parent) : id < doc.size := by
  refine Nat.lt_of_not_le fun hle => ?_
  rw [parent?, node_of_size_le hle] at h
  cases h

theorem parent_lt (h : Linked doc) (hid : doc.parent? id = some parent) : parent < id := by
  have hroot : id ≠ rootNode := by
    rintro rfl
    rw [h.parent?_root] at hid
    cases hid
  obtain ⟨p, hp, hparent⟩ := h.parent?_lt id (Nat.pos_of_ne_zero hroot) (lt_size_of_parent? hid)
  obtain rfl : p = parent := Option.some.inj (hparent.symm.trans hid)
  exact hp

theorem lt_size_of_mem_attributes (h : Linked doc) (hid : id ∈ doc.attributes element) :
    id < doc.size :=
  lt_size_of_parent? ((h.mem_attributes element id).mp hid).1

/-- A climb comes to its end before the fuel does. -/
theorem climb_eq_of_lt (h : Linked doc) {fuel fuel' : Nat} (hfuel : id < fuel)
    (hfuel' : id < fuel') : doc.climb fuel id = doc.climb fuel' id := by
  -- both fuels are for the node, so both last for its parent, which stands before it
  induction fuel generalizing id fuel' with
  | zero => exact absurd hfuel (Nat.not_lt_zero id)
  | succ fuel ih =>
      cases fuel' with
      | zero => exact absurd hfuel' (Nat.not_lt_zero id)
      | succ fuel' =>
          rw [climb, climb]
          cases hparent : doc.parent? id with
          | none => rfl
          | some parent =>
              have hlt := h.parent_lt hparent
              dsimp only
              rw [ih (Nat.lt_of_lt_of_le hlt (Nat.le_of_lt_succ hfuel))
                (Nat.lt_of_lt_of_le hlt (Nat.le_of_lt_succ hfuel'))]

theorem ancestors_of_parent (h : Linked doc) (hparent : doc.parent? id = some parent) :
    doc.ancestors id = parent :: doc.ancestors parent := by
  have hlt := h.parent_lt hparent
  have hid := lt_size_of_parent? hparent
  have hnext : doc.ancestors id = doc.climb (doc.size + 1) id :=
    h.climb_eq_of_lt hid (Nat.lt_succ_of_lt hid)
  rw [hnext, climb, hparent]
  rfl

theorem ancestors_of_none (hparent : doc.parent? id = none) : doc.ancestors id = [] := by
  rw [ancestors]
  cases doc.size with
  | zero => rfl
  | succ n => rw [climb, hparent]

end Linked

end Document

end Schematron.Xml
