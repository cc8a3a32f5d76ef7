import Schematron.Proofs.Xml.Sites

/-!
# What stays when a document grows

Trees that are grafted stand behind the nodes there were (`Grafted.holdsAll`), and these stay as
they are, but for the children of the one below which the trees come (`Grafted.node_eq`).

While a document is read, a node that is there gets more children and a text gets longer, and that
is all (`Keeps`). So the elements of the document stay, with the declarations around them, and new
ones come behind them.
-/

namespace Schematron.Xml.Document

open Xml.Tree

variable {doc doc' result : Document} {parent id : NodeId} {trees : List Tree}

/-! ## Grafts -/

theorem Grafted.node_eq (h : Grafted doc parent trees result) (hid : id < doc.size) :
    result.node id =
      if id = parent then addChildren (tops doc.size trees) (doc.node id) else doc.node id := by
  have hlength : id < doc.nodes.toList.length := hid
  rw [Document.node_eq, Document.node_eq, h,
    List.getElem?_append_left (by rwa [List.length_modify]), List.getElem?_modify,
    List.getElem?_eq_getElem hlength]
  by_cases hparent : id = parent
  · simp [hparent]
  · simp [hparent, Ne.symm hparent]

/-- The blocks of the trees stand behind the nodes there were. -/
theorem Grafted.holdsAll (h : Grafted doc parent trees result) :
    result.HoldsAll parent doc.size trees := by
  refine ⟨doc.nodes.toList.modify parent (addChildren (tops doc.size trees)), [], ?_, ?_⟩
  · rw [List.append_nil]
    exact h
  · rw [List.length_modify]
    rfl

theorem Holds.forall₂_attributes {start : NodeId} {name : Name} {declarations : List Declaration}
    {attributes : List (Name × String)} {children : List Tree}
    (h : doc.Holds parent start (.element name declarations attributes children)) :
    List.Forall₂ (fun id a => doc.kind id = .attribute a.1 a.2) (doc.attributes start)
      attributes := by
  have hmap := h.map_attributes (f := doc.kind) (g := fun a => .attribute a.1 a.2)
    fun _ _ _ hkind => hkind
  rwa [← List.forall₂_eq_eq_eq, List.forall₂_map_left_iff, List.forall₂_map_right_iff] at hmap

/-! ## Elements -/

/-- The elements of a document, in document order. -/
def elements (doc : Document) : List NodeId := (List.range doc.size).filter doc.isElement

/-! ## Growing -/

/-- Of the nodes there were, none changes but in its children, and a text in its value. -/
structure Keeps (doc doc' : Document) : Prop where
  size_le : doc.size ≤ doc'.size
  parent? : ∀ id < doc.size, doc'.parent? id = doc.parent? id
  attributes : ∀ id < doc.size, doc'.attributes id = doc.attributes id
  kind : ∀ id < doc.size, doc'.kind id = doc.kind id ∨
    ∃ value more, doc.kind id = .text value ∧ doc'.kind id = .text more

theorem Grafted.keeps (h : Grafted doc parent trees result) : doc.Keeps result where
  size_le := h.size ▸ Nat.le_add_right _ _
  parent? id hid := by
    rw [Document.parent?, h.node_eq hid]
    split <;> rfl
  attributes id hid := by
    rw [Document.attributes, h.node_eq hid]
    split <;> rfl
  kind id hid := by
    rw [Document.kind, h.node_eq hid]
    split <;> exact .inl rfl

theorem keeps_setKind {value more : String} (hkind : doc.kind id = .text value) :
    doc.Keeps (doc.setKind id (.text more)) := by
  have hid : id < doc.size := lt_size_of_kind hkind nofun
  refine ⟨Nat.le_of_eq (size_setKind _ _).symm, fun other _ => parent?_setKind _ _ _ hid,
    fun other _ => attributes_setKind _ _ _ hid, fun other _ => ?_⟩
  rw [kind_setKind _ _ _ hid]
  split
  · next hother => exact .inr ⟨value, more, hother ▸ hkind, rfl⟩
  · exact .inl rfl

namespace Keeps

variable (h : doc.Keeps doc')
include h

theorem isElement_eq (hid : id < doc.size) : doc'.isElement id = doc.isElement id := by
  rcases h.kind id hid with hkind | ⟨value, more, hkind, hkind'⟩
  · rw [isElement, isElement, hkind]
  · rw [isElement, isElement, hkind, hkind']

theorem declarations_eq (hid : id < doc.size) : doc'.declarations id = doc.declarations id := by
  rcases h.kind id hid with hkind | ⟨value, more, hkind, hkind'⟩
  · rw [declarations, declarations, hkind]
  · rw [declarations, declarations, hkind, hkind']

/-- The declarations around a node stay. -/
theorem around_eq (hlinked : Linked doc) (hlinked' : Linked doc') (hid : id < doc.size) :
    doc'.around id = doc.around id := by
  induction id using Nat.strong_induction_on with
  | _ id ih =>
      have hsame := h.parent? id hid
      cases hparent : doc.parent? id with
      | none =>
          rw [around, around, Linked.ancestors_of_none hparent,
            Linked.ancestors_of_none (hsame.trans hparent), List.flatMap_singleton,
            List.flatMap_singleton, h.declarations_eq hid]
      | some parent =>
          have hlt := hlinked.parent_lt hparent
          rw [around, around, hlinked.ancestors_of_parent hparent,
            hlinked'.ancestors_of_parent (hsame.trans hparent), List.flatMap_cons,
            List.flatMap_cons, h.declarations_eq hid]
          exact congrArg _ (ih parent hlt (Nat.lt_trans hlt hid))

/-- The elements there were come first. -/
theorem elements_eq : doc'.elements = doc.elements ++
    (List.range' doc.size (doc'.size - doc.size)).filter doc'.isElement := by
  have hrange : List.range doc'.size =
      List.range doc.size ++ List.range' doc.size (doc'.size - doc.size) := by
    rw [List.range_eq_range', List.range_eq_range', ← Nat.add_sub_cancel' h.size_le,
      ← List.range'_append_1, Nat.zero_add, Nat.add_sub_cancel_left]
  rw [elements, elements, hrange, List.filter_append]
  congr 1
  exact List.filter_congr fun id hid => h.isElement_eq (List.mem_range.mp hid)

end Keeps

theorem Grafted.elements_eq (h : Grafted doc parent trees result) :
    result.elements = doc.elements ++ (nodeIdsAll doc.size trees).filter result.isElement := by
  rw [h.keeps.elements_eq, h.size, Nat.add_sub_cancel_left, filter_isElement_trees _ h.holdsAll]

/-! ## Texts and comments -/

theorem grafted_appendComment (hparent : parent < doc.size) (value : String) :
    Grafted doc parent [.comment value] (doc.appendComment parent value).2 :=
  graft_nodes doc hparent (.comment value) trivial nofun

/-- Text is grafted, if it does not make a text longer. -/
theorem grafted_or_setKind (hparent : parent < doc.size) (value : String) :
    Grafted doc parent [.text value] (doc.appendText parent value).2 ∨
      ∃ last before, doc.kind last = .text before ∧
        (doc.appendText parent value).2 = doc.setKind last (.text (before ++ value)) := by
  cases hvalue : value.isEmpty with
  | true =>
      refine .inl ?_
      rw [Grafted, appendText, if_pos hvalue]
      simp [tops, weight, layoutAll, layout, hvalue, addChildren_nil]
  | false =>
      rcases appendText_cases doc parent with ⟨last, before, -, hkind, htext⟩ | hpush
      · exact .inr ⟨last, before, hkind, htext value hvalue⟩
      · refine .inl ?_
        rw [Grafted, hpush value hvalue, pushChild_nodes doc _ hparent]
        simp [tops, weight, layoutAll, layout, hvalue]

theorem keeps_appendComment (hparent : parent < doc.size) (value : String) :
    doc.Keeps (doc.appendComment parent value).2 := (grafted_appendComment hparent value).keeps

theorem keeps_appendText (hparent : parent < doc.size) (value : String) :
    doc.Keeps (doc.appendText parent value).2 := by
  rcases grafted_or_setKind hparent value with hgrafted | ⟨last, before, hkind, hset⟩
  · exact hgrafted.keeps
  · exact hset ▸ keeps_setKind hkind

/-- A comment is no element. -/
theorem elements_appendComment (hparent : parent < doc.size) (value : String) :
    (doc.appendComment parent value).2.elements = doc.elements := by
  have hgrafted := grafted_appendComment hparent value
  rw [hgrafted.elements_eq]
  simp [nodeIdsAll, nodeIds, isElement, hgrafted.holdsAll.head.comment_kind]

/-- Text is no element. -/
theorem elements_appendText (hparent : parent < doc.size) (value : String) :
    (doc.appendText parent value).2.elements = doc.elements := by
  rcases grafted_or_setKind hparent value with hgrafted | ⟨last, before, hkind, hset⟩
  · rw [hgrafted.elements_eq]
    cases hvalue : value.isEmpty with
    | true => simp [nodeIdsAll, nodeIds, hvalue]
    | false =>
        simp [nodeIdsAll, nodeIds, hvalue, isElement, hgrafted.holdsAll.head.text_kind hvalue]
  · rw [hset, (keeps_setKind hkind).elements_eq, size_setKind, Nat.sub_self, List.range'_zero,
      List.filter_nil, List.append_nil]

end Schematron.Xml.Document
