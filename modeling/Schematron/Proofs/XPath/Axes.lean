import Schematron.Proofs.Xml.Lineage
import Schematron.XPath.Axis

/-!
# How the axes fit together

Two of the axes are filtered out of all indices and the others follow the links of the nodes. In a
document that was read they fit together without gap or overlap (`AxesFit`): from any node the
ancestors, the descendants, the nodes after it and those before it are all other nodes that are no
attributes, each of them on one axis only. Seen from the other node, after is before and below is
above.

Each axis is said by what its nodes are (`mem_followingNodes`, `mem_precedingNodes`,
`siblings_cases`; for the lineage `Numbered.mem_descendants`). Whether a node stands before or
after another one is then told by the indices alone.
-/

namespace Schematron.XPath

open Xml Document

namespace Axis

variable {doc : Document} {x y : NodeId}

/-! ## Nodes before and after -/

theorem mem_followingNodes :
    y ∈ followingNodes doc x ↔
      y < doc.size ∧ x < y ∧ doc.isAttribute y = false ∧ y ∉ doc.descendants x := by
  rw [followingNodes, List.mem_filter, List.mem_range, Std.HashSet.contains_ofList]
  simp [and_assoc]

/-- The document node is left out of the nodes before a node anyway, since it is above it. -/
theorem mem_precedingNodes (h : Linked doc) (hx : x < doc.size) :
    y ∈ precedingNodes doc x ↔
      y < x ∧ doc.isAttribute y = false ∧ y ∉ doc.ancestors x := by
  have hdocument (hlt : y < x) (habove : y ∉ doc.ancestors x) : isDocument doc y = false := by
    have hpos : rootNode < y := by
      refine Nat.pos_of_ne_zero ?_
      rintro rfl
      exact habove (h.root_mem_ancestors hlt hx)
    have hkind := h.kind_ne y hpos (Nat.lt_trans hlt hx)
    rw [isDocument]
    split
    · next hroot => exact absurd hroot hkind
    · rfl
  rw [precedingNodes, List.mem_reverse, List.mem_filter, List.mem_range,
    Std.HashSet.contains_ofList]
  simp only [Bool.and_eq_true, decide_eq_true_eq, Bool.not_eq_true', List.contains_iff_mem,
    Bool.eq_false_iff (b := List.contains _ _), ne_eq]
  constructor
  · rintro ⟨-, ⟨⟨hlt, hattribute⟩, habove⟩, -⟩
    exact ⟨hlt, hattribute, habove⟩
  · rintro ⟨hlt, hattribute, habove⟩
    exact ⟨Nat.lt_trans hlt hx, ⟨⟨hlt, hattribute⟩, habove⟩, hdocument hlt habove⟩

theorem followingNodes_increasing (doc : Document) (x : NodeId) :
    (followingNodes doc x).Pairwise (· < ·) :=
  List.pairwise_lt_range.filter _

theorem precedingNodes_decreasing (doc : Document) (x : NodeId) :
    (precedingNodes doc x).Pairwise (· > ·) :=
  List.pairwise_reverse.mpr (List.pairwise_lt_range.filter _)

/-! ## Siblings -/

/-- A node has no siblings, or it parts the children of its parent into those before it and those
after it. -/
theorem siblings_cases (doc : Document) (x : NodeId) :
    siblings doc x = ([], []) ∨
      ∃ above, doc.parent? x = some above ∧
        (siblings doc x).1.reverse ++ x :: (siblings doc x).2 = doc.children above := by
  rw [siblings]
  split
  · exact .inl rfl
  · split
    · exact .inl rfl
    · next above hparent =>
        split
        · next before first after hspan =>
            refine .inr ⟨above, hparent, ?_⟩
            rw [List.span_eq_takeWhile_dropWhile, Prod.mk.injEq] at hspan
            obtain ⟨hbefore, hafter⟩ := hspan
            obtain rfl : first = x := by
              have hhead := List.head?_dropWhile_not (· != x) (doc.children above)
              rw [hafter] at hhead
              simpa using hhead
            rw [List.reverse_reverse, ← hbefore, ← hafter]
            exact List.takeWhile_append_dropWhile
        · exact .inl rfl

theorem parent_lt_size (h : Linked doc) (hparent : doc.parent? x = some y) : y < doc.size :=
  Nat.lt_trans (h.parent_lt hparent) (Linked.lt_size_of_parent? hparent)

theorem siblings_increasing (h : Numbered doc) (x : NodeId) :
    (siblings doc x).1.Pairwise (· > ·) ∧ (siblings doc x).2.Pairwise (· < ·) := by
  rcases siblings_cases doc x with hnone | ⟨above, hparent, hsplit⟩
  · rw [hnone]
    exact ⟨.nil, .nil⟩
  · have hincreasing := h.children_increasing (parent_lt_size h.linked hparent)
    rw [← hsplit, List.pairwise_append, List.pairwise_reverse] at hincreasing
    exact ⟨hincreasing.1, (List.pairwise_cons.mp hincreasing.2.1).2⟩

/-! ## Nodes of the document -/

/-- No axis leads out of the document. -/
theorem lt_size_of_mem_nodes (h : Numbered doc) (hx : x < doc.size) (axis : Axis) :
    ∀ y ∈ axis.nodes doc x, y < doc.size := by
  have hdescendants : ∀ y ∈ doc.descendants x, y < doc.size := fun y hy =>
    h.linked.lt_size_of_mem_ancestors (h.mem_descendants.mp hy).1
  have hancestors : ∀ y ∈ doc.ancestors x, y < doc.size := fun y hy =>
    Nat.lt_trans (h.linked.lt_of_mem_ancestors hy) hx
  have hchildren (p : NodeId) : ∀ y ∈ doc.children p, y < doc.size := fun y hy =>
    lt_size_of_mem_children h.linked hy
  have hsiblings : (∀ y ∈ (siblings doc x).1, y < doc.size) ∧
      ∀ y ∈ (siblings doc x).2, y < doc.size := by
    rcases siblings_cases doc x with hnone | ⟨above, -, hsplit⟩
    · simp [hnone]
    · have hall := hchildren above
      simp only [← hsplit, List.mem_append, List.mem_reverse, List.mem_cons] at hall
      exact ⟨fun y hy => hall y (.inl hy), fun y hy => hall y (.inr (.inr hy))⟩
  cases axis with
  | child => exact hchildren x
  | descendant => exact hdescendants
  | descendantOrSelf => exact List.forall_mem_cons.mpr ⟨hx, hdescendants⟩
  | self => exact List.forall_mem_singleton.mpr hx
  | parent =>
      intro y hy
      exact parent_lt_size h.linked (Option.mem_toList.mp hy)
  | ancestor => exact hancestors
  | ancestorOrSelf => exact List.forall_mem_cons.mpr ⟨hx, hancestors⟩
  | «attribute» => exact fun y hy => h.linked.lt_size_of_mem_attributes hy
  | followingSibling => exact hsiblings.2
  | precedingSibling => exact hsiblings.1
  | following => exact fun y hy => (mem_followingNodes.mp hy).1
  | preceding =>
      exact fun y hy => Nat.lt_trans ((mem_precedingNodes h.linked hx).mp hy).1 hx

/-! ## Above, below, before and after -/

/-- The axes that lead from a node to all others. -/
def around : List Axis := [.ancestor, .descendant, .following, .preceding]

section

variable (h : Numbered doc) (hx : x < doc.size)

include h

theorem mem_ancestor (hy : y ∈ ancestor.nodes doc x) : y < x ∧ doc.isAttribute y = false :=
  ⟨h.linked.lt_of_mem_ancestors hy, h.isAttribute_eq_false_of_mem_ancestors hy⟩

theorem mem_descendant (hy : y ∈ descendant.nodes doc x) :
    x < y ∧ y < doc.size ∧ doc.isAttribute y = false := by
  obtain ⟨habove, hattribute⟩ := h.mem_descendants.mp hy
  exact ⟨h.linked.lt_of_mem_ancestors habove, h.linked.lt_size_of_mem_ancestors habove, hattribute⟩

include hx

/-- What is above a node or before it has a lower index, and what is below it or after it has a
higher one. -/
theorem disjoint_around :
    around.Pairwise fun a b => List.Disjoint (a.nodes doc x) (b.nodes doc x) := by
  have habove {y : NodeId} (hy : y ∈ ancestor.nodes doc x) := (mem_ancestor h hy).1
  have hbelow {y : NodeId} (hy : y ∈ descendant.nodes doc x) := (mem_descendant h hy).1
  have hafter {y : NodeId} (hy : y ∈ following.nodes doc x) := mem_followingNodes.mp hy
  have hbefore {y : NodeId} (hy : y ∈ preceding.nodes doc x) :=
    (mem_precedingNodes h.linked hx).mp hy
  simp only [around, List.pairwise_cons, List.forall_mem_cons, List.not_mem_nil, false_imp_iff,
    implies_true, List.Pairwise.nil, and_true]
  refine ⟨⟨?aboveBelow, ?aboveAfter, ?aboveBefore⟩, ⟨?belowAfter, ?belowBefore⟩, ?afterBefore⟩
  case aboveBelow => exact fun y ha hb => Nat.lt_asymm (habove ha) (hbelow hb)
  case aboveAfter => exact fun y ha hf => Nat.lt_asymm (habove ha) (hafter hf).2.1
  case aboveBefore => exact fun y ha hp => (hbefore hp).2.2 ha
  case belowAfter => exact fun y hb hf => (hafter hf).2.2.2 hb
  case belowBefore => exact fun y hb hp => Nat.lt_asymm (hbelow hb) (hbefore hp).1
  case afterBefore => exact fun y hf hp => Nat.lt_asymm (hafter hf).2.1 (hbefore hp).1

/-- A node with a lower index is above or before, one with a higher index below or after. -/
theorem exists_mem_around_iff :
    (∃ axis ∈ around, y ∈ axis.nodes doc x) ↔
      y < doc.size ∧ doc.isAttribute y = false ∧ y ≠ x := by
  constructor
  · rintro ⟨axis, haxis, hy⟩
    simp only [around, List.mem_cons, List.not_mem_nil, or_false] at haxis
    rcases haxis with rfl | rfl | rfl | rfl
    · obtain ⟨hlt, hattribute⟩ := mem_ancestor h hy
      exact ⟨Nat.lt_trans hlt hx, hattribute, Nat.ne_of_lt hlt⟩
    · obtain ⟨hlt, hsize, hattribute⟩ := mem_descendant h hy
      exact ⟨hsize, hattribute, Nat.ne_of_gt hlt⟩
    · obtain ⟨hsize, hlt, hattribute, -⟩ := mem_followingNodes.mp hy
      exact ⟨hsize, hattribute, Nat.ne_of_gt hlt⟩
    · obtain ⟨hlt, hattribute, -⟩ := (mem_precedingNodes h.linked hx).mp hy
      exact ⟨Nat.lt_trans hlt hx, hattribute, Nat.ne_of_lt hlt⟩
  · rintro ⟨hsize, hattribute, hne⟩
    rcases Nat.lt_or_gt_of_ne hne with hlt | hlt
    · by_cases habove : y ∈ doc.ancestors x
      · exact ⟨ancestor, by simp [around], habove⟩
      · exact ⟨preceding, by simp [around],
          (mem_precedingNodes h.linked hx).mpr ⟨hlt, hattribute, habove⟩⟩
    · by_cases hbelow : y ∈ doc.descendants x
      · exact ⟨descendant, by simp [around], hbelow⟩
      · exact ⟨following, by simp [around],
          mem_followingNodes.mpr ⟨hsize, hlt, hattribute, hbelow⟩⟩

end

/-- What is below a node is what it is above of. -/
theorem mem_descendant_iff (h : Numbered doc) (hy : doc.isAttribute y = false) :
    y ∈ descendant.nodes doc x ↔ x ∈ ancestor.nodes doc y :=
  h.mem_descendants.trans (and_iff_left hy)

/-- What comes after a node is what it comes before. -/
theorem mem_following_iff (h : Numbered doc) (hsize : y < doc.size)
    (hx : doc.isAttribute x = false) (hy : doc.isAttribute y = false) :
    y ∈ following.nodes doc x ↔ x ∈ preceding.nodes doc y := by
  have hlineage : y ∈ doc.descendants x ↔ x ∈ doc.ancestors y := mem_descendant_iff h hy
  have hafter : y ∈ following.nodes doc x ↔ _ := mem_followingNodes
  have hbefore : x ∈ preceding.nodes doc y ↔ _ := mem_precedingNodes h.linked hsize
  rw [hafter, hbefore, hlineage]
  simp [hsize, hx, hy]

end Axis

/-- How the axes of a document fit together. From any node four of them lead to all other nodes
that are no attributes, and no two of these to the same one. Between nodes that are no attributes
the one after is the one before from the other side, and the one below the one above. The axes that
go forward have the nodes by increasing index, those that go back by decreasing index. -/
structure AxesFit (doc : Document) : Prop where
  disjoint : ∀ x < doc.size,
    Axis.around.Pairwise fun a b => List.Disjoint (a.nodes doc x) (b.nodes doc x)
  cover : ∀ x < doc.size, ∀ y, (∃ axis ∈ Axis.around, y ∈ axis.nodes doc x) ↔
    y < doc.size ∧ doc.isAttribute y = false ∧ y ≠ x
  following_iff : ∀ x < doc.size, ∀ y < doc.size, doc.isAttribute x = false →
    doc.isAttribute y = false →
      (y ∈ Axis.following.nodes doc x ↔ x ∈ Axis.preceding.nodes doc y)
  descendant_iff : ∀ x < doc.size, ∀ y < doc.size, doc.isAttribute x = false →
    doc.isAttribute y = false →
      (y ∈ Axis.descendant.nodes doc x ↔ x ∈ Axis.ancestor.nodes doc y)
  increasing : ∀ x < doc.size, ∀ axis ∈ [Axis.descendant, .following, .followingSibling],
    (axis.nodes doc x).Pairwise (· < ·)
  decreasing : ∀ x < doc.size, ∀ axis ∈ [Axis.ancestor, .preceding, .precedingSibling],
    (axis.nodes doc x).Pairwise (· > ·)

/-- The axes of a document that was read fit together. -/
theorem axesFit_of_parse (text : String) (doc : Document) (h : parse text = .ok doc) :
    AxesFit doc := by
  have hnumbered := numbered_of_parse h
  have hsiblings := Axis.siblings_increasing hnumbered
  exact
    { disjoint := fun x hx => Axis.disjoint_around hnumbered hx
      cover := fun x hx y => Axis.exists_mem_around_iff hnumbered hx
      following_iff := fun x _ y hy hxnone hynone =>
        Axis.mem_following_iff hnumbered hy hxnone hynone
      descendant_iff := fun x _ y _ _ hynone => Axis.mem_descendant_iff hnumbered hynone
      increasing := fun x hx => List.forall_mem_cons.mpr ⟨hnumbered.descendants_increasing hx,
        List.forall_mem_cons.mpr ⟨Axis.followingNodes_increasing doc x,
          List.forall_mem_singleton.mpr (hsiblings x).2⟩⟩
      decreasing := fun x _ => List.forall_mem_cons.mpr ⟨hnumbered.linked.ancestors_decreasing x,
        List.forall_mem_cons.mpr ⟨Axis.precedingNodes_decreasing doc x,
          List.forall_mem_singleton.mpr (hsiblings x).1⟩⟩ }

/-- With comments beside the document element, an attribute and nodes of every kind. -/
theorem axesFit_of_parse_mixed :
    ∃ doc, parse "<!--c--><a k='v'>x<b><d/></b><!--e--><f/></a><!--g-->" = .ok doc ∧
      doc.size = 10 ∧ AxesFit doc := by
  have hok : ((parse "<!--c--><a k='v'>x<b><d/></b><!--e--><f/></a><!--g-->").map size).toOption =
      some 10 := by decide +kernel
  match h : parse "<!--c--><a k='v'>x<b><d/></b><!--e--><f/></a><!--g-->" with
  | .ok doc =>
      rw [h] at hok
      exact ⟨doc, rfl, Option.some.inj hok, axesFit_of_parse _ doc h⟩
  | .error fault =>
      rw [h] at hok
      cases hok

end Schematron.XPath
