import Schematron.Proofs.Xml.DocumentOrder

/-!
# Lineage

In a document that was read a node is below another just if this one is above it
(`Numbered.mem_descendants`), and the descendants of a node are met by increasing index
(`Numbered.descendants_increasing`).

Two facts about the document carry this: its attributes have nothing below them, so that only
elements and the document node have a lineage, and the tree at each node is a block of indices
(`Numbered`). The walk downwards leaves the attributes out of a visit, and the rest of the block
stays in order (`Visited.walked`).
-/

namespace Schematron.Xml.Document

variable {doc : Document} {parent id other : NodeId}

/-! ## Upwards -/

namespace Linked

/-- The ancestors of a node are its parent and the ancestors of its parent. -/
theorem mem_ancestors (h : Linked doc) :
    other ∈ doc.ancestors id ↔
      ∃ p, doc.parent? id = some p ∧ (other = p ∨ other ∈ doc.ancestors p) := by
  cases hparent : doc.parent? id with
  | none => simp [ancestors_of_none hparent]
  | some parent => simp [h.ancestors_of_parent hparent]

theorem lt_of_mem_ancestors (h : Linked doc) (hother : other ∈ doc.ancestors id) : other < id :=
  (List.pairwise_cons.mp ((h.climbed id).lt h)).1 other hother

theorem ancestors_decreasing (h : Linked doc) (id : NodeId) :
    (doc.ancestors id).Pairwise (· > ·) :=
  (List.pairwise_cons.mp ((h.climbed id).lt h)).2

theorem lt_size_of_mem_ancestors (h : Linked doc) (hother : other ∈ doc.ancestors id) :
    id < doc.size := by
  obtain ⟨p, hparent, -⟩ := h.mem_ancestors.mp hother
  exact lt_size_of_parent? hparent

/-- The ancestors of an ancestor are ancestors. -/
theorem mem_ancestors_trans (h : Linked doc) {third : NodeId} (hother : other ∈ doc.ancestors id)
    (hthird : third ∈ doc.ancestors other) : third ∈ doc.ancestors id := by
  induction id using Nat.strongRecOn with
  | _ id ih =>
      obtain ⟨p, hparent, hcases⟩ := h.mem_ancestors.mp hother
      refine h.mem_ancestors.mpr ⟨p, hparent, .inr ?_⟩
      rcases hcases with rfl | hother
      · exact hthird
      · exact ih p (h.parent_lt hparent) hother

/-- A node is above another one if the way up from this one comes through one that it is the
parent of. -/
theorem mem_ancestors_iff_exists (h : Linked doc) :
    other ∈ doc.ancestors id ↔
      ∃ child, doc.parent? child = some other ∧ (id = child ∨ child ∈ doc.ancestors id) := by
  constructor
  · intro hother
    induction id using Nat.strongRecOn with
    | _ id ih =>
        obtain ⟨p, hparent, hcases⟩ := h.mem_ancestors.mp hother
        rcases hcases with rfl | hother
        · exact ⟨id, hparent, .inl rfl⟩
        · obtain ⟨child, hchild, hway⟩ := ih p (h.parent_lt hparent) hother
          exact ⟨child, hchild, .inr (h.mem_ancestors.mpr ⟨p, hparent, hway.imp_left Eq.symm⟩)⟩
  · rintro ⟨child, hchild, rfl | hway⟩
    · exact h.mem_ancestors.mpr ⟨other, hchild, .inl rfl⟩
    · exact h.mem_ancestors_trans hway (h.mem_ancestors.mpr ⟨other, hchild, .inl rfl⟩)

/-- The document node is above all other nodes. -/
theorem root_mem_ancestors (h : Linked doc) (hpos : rootNode < id) (hlt : id < doc.size) :
    rootNode ∈ doc.ancestors id := by
  induction id using Nat.strongRecOn with
  | _ id ih =>
      obtain ⟨p, hp, hparent⟩ := h.parent?_lt id hpos hlt
      refine h.mem_ancestors.mpr ⟨p, hparent, ?_⟩
      rcases Nat.eq_zero_or_pos p with hzero | hpos
      · exact .inl hzero.symm
      · exact .inr (ih p hp hpos (Nat.lt_trans hp hlt))

end Linked

/-! ## Numbered documents -/

/-- The nodes make a tree whose attributes have nothing below them, and the tree at each node is a
block of indices. -/
structure Numbered (doc : Document) : Prop where
  linked : Linked doc
  leaf : ∀ id, doc.isAttribute id = true → doc.children id = [] ∧ doc.attributes id = []
  block : ∀ id < doc.size, ∃ n, doc.Visited [id] (List.range' id n)

theorem numbered_of_parse {text : String} (h : parse text = .ok doc) : Numbered doc := by
  obtain ⟨trees, hdoc, htop, hreadable⟩ := exists_trees_of_parse h
  have hlinked := (built_of_parse h).linked
  have hproper := Tree.ReadableAll.proper trees hreadable
  have hleaf (id : NodeId) (hid : doc.isAttribute id = true) :
      doc.children id = [] ∧ doc.attributes id = [] := by
    subst hdoc
    exact leaf_of_isAttribute hproper htop.textsApart hid
  have hlisted (p id : NodeId) (hid : id ∈ doc.attributes p) : doc.isAttribute id = true := by
    rw [isAttribute_eq]
    exact ((hlinked.mem_attributes p id).mp hid).2
  have hvisited := visited_graftAll hproper htop.textsApart
  rw [← hdoc] at hvisited
  exact ⟨hlinked, hleaf, fun id hid =>
    hvisited.block hleaf hlisted List.range_eq_range'.symm id (List.mem_range.mpr hid)⟩

/-! ## Walks and visits -/

/-- A walk finds the same nodes whenever it is made. -/
theorem Walked.unique {below : NodeId → List NodeId} {stack found found' : List NodeId}
    (h : Walked below stack found) (h' : Walked below stack found') : found = found' := by
  induction h generalizing found' with
  | done =>
      cases h'
      rfl
  | step _ ih =>
      cases h' with
      | step rest => rw [ih rest]

/-- The nodes that are visited first stand in a visit in the same order. -/
theorem Visited.sublist {ids met : List NodeId} (h : doc.Visited ids met) : ids.Sublist met := by
  induction h with
  | nil => exact .slnil
  | @cons id ids below rest _ _ _ ih =>
      exact (ih.trans (List.sublist_append_right _ rest)).cons_cons id

namespace Numbered

theorem isAttribute_eq_false_of_mem_children (h : Numbered doc) (hid : id ∈ doc.children parent) :
    doc.isAttribute id = false := by
  rw [isAttribute_eq]
  exact ((h.linked.mem_children parent id).mp hid).2

theorem isAttribute_of_mem_attributes (h : Numbered doc) (hid : id ∈ doc.attributes parent) :
    doc.isAttribute id = true := by
  rw [isAttribute_eq]
  exact ((h.linked.mem_attributes parent id).mp hid).2

/-- No attribute is above another node. -/
theorem isAttribute_eq_false_of_mem_ancestors (h : Numbered doc)
    (hother : other ∈ doc.ancestors id) : doc.isAttribute other = false := by
  obtain ⟨child, hchild, -⟩ := h.linked.mem_ancestors_iff_exists.mp hother
  have hmem := h.linked.mem_of_parent? hchild
  refine Bool.eq_false_iff.mpr fun hattribute => ?_
  obtain ⟨hchildren, hattributes⟩ := h.leaf other hattribute
  simp [hchildren, hattributes] at hmem

/-! ## Downwards -/

/-- A node is above another one that is no attribute if one of its children is that node or above
it. -/
theorem exists_child_iff (h : Numbered doc) :
    (∃ child ∈ doc.children id, other = child ∨
        child ∈ doc.ancestors other ∧ doc.isAttribute other = false) ↔
      id ∈ doc.ancestors other ∧ doc.isAttribute other = false := by
  constructor
  · rintro ⟨child, hchild, hcases⟩
    have hparent := ((h.linked.mem_children id child).mp hchild).1
    have hnone : doc.isAttribute other = false := by
      rcases hcases with rfl | ⟨-, hnone⟩
      · exact h.isAttribute_eq_false_of_mem_children hchild
      · exact hnone
    exact ⟨h.linked.mem_ancestors_iff_exists.mpr ⟨child, hparent, hcases.imp_right (·.1)⟩, hnone⟩
  · rintro ⟨habove, hnone⟩
    obtain ⟨child, hparent, hway⟩ := h.linked.mem_ancestors_iff_exists.mp habove
    have hattribute : doc.isAttribute child = false := by
      rcases hway with rfl | hway
      · exact hnone
      · exact h.isAttribute_eq_false_of_mem_ancestors hway
    rw [isAttribute_eq] at hattribute
    exact ⟨child, (h.linked.mem_children id child).mpr ⟨hparent, hattribute⟩,
      hway.imp_right fun hway => ⟨hway, hnone⟩⟩

/-- The walk along a stack finds the nodes on it and what is below them. -/
theorem mem_walked (h : Numbered doc) {stack found : List NodeId}
    (hwalked : Walked doc.children stack found) :
    other ∈ found ↔ ∃ id ∈ stack, other = id ∨
      id ∈ doc.ancestors other ∧ doc.isAttribute other = false := by
  induction hwalked with
  | done => simp
  | @step id stack found rest ih =>
      have hbelow : (∃ child ∈ doc.children id, _) ↔
          id ∈ doc.ancestors other ∧ doc.isAttribute other = false := h.exists_child_iff
      simp only [List.mem_cons, List.mem_append, or_and_right, exists_or, exists_eq_left] at ih ⊢
      rw [ih, hbelow, or_assoc]

/-- The descendants of a node are the nodes that it is above of, attributes left out. -/
theorem mem_descendants (h : Numbered doc) :
    other ∈ doc.descendants id ↔ id ∈ doc.ancestors other ∧ doc.isAttribute other = false := by
  rw [h.mem_walked (h.linked.walked id).1, h.exists_child_iff]

/-! ## Document order -/

/-- The walk along a stack finds what a visit meets, attributes left out. -/
theorem walked_of_visited (h : Numbered doc) {ids met : List NodeId}
    (hvisited : doc.Visited ids met) (hids : ∀ id ∈ ids, doc.isAttribute id = false)
    {stack found : List NodeId} (hwalked : Walked doc.children stack found) :
    Walked doc.children (ids ++ stack) (met.filter (!doc.isAttribute ·) ++ found) := by
  induction hvisited generalizing stack found with
  | nil => exact hwalked
  | @cons id ids below rest _ _ ihbelow ihrest =>
      obtain ⟨hid, hids⟩ := List.forall_mem_cons.mp hids
      have hnone : (doc.attributes id).filter (!doc.isAttribute ·) = [] :=
        List.filter_eq_nil_iff.mpr fun a ha => by simp [h.isAttribute_of_mem_attributes ha]
      have hbelow := ihbelow (fun child hchild => h.isAttribute_eq_false_of_mem_children hchild)
        (ihrest hids hwalked)
      have hfilter : (id :: (doc.attributes id ++ below) ++ rest).filter (!doc.isAttribute ·) =
          id :: (below.filter (!doc.isAttribute ·) ++ rest.filter (!doc.isAttribute ·)) := by
        simp [hid, hnone]
      rw [hfilter, List.cons_append, List.cons_append, List.append_assoc]
      exact .step hbelow

/-- Below a node is a part of the block that begins with it. -/
theorem exists_below (h : Numbered doc) (hid : id < doc.size) :
    ∃ below, doc.Visited (doc.children id) below ∧ below.Pairwise (· < ·) := by
  obtain ⟨n, hblock⟩ := h.block id hid
  have hincreasing : (List.range' id n).Pairwise (· < ·) := List.pairwise_lt_range'
  cases n with
  | zero => cases hblock
  | succ n =>
      rw [List.range'_succ] at hblock hincreasing
      generalize hrest : List.range' (id + 1) n = met at hblock hincreasing
      cases hblock with
      | @cons _ _ below rest hbelow hnone =>
          refine ⟨below, hbelow, ?_⟩
          have hsub : below.Sublist (doc.attributes id ++ below ++ rest) := by simp
          exact (List.pairwise_cons.mp hincreasing).2.sublist hsub

theorem descendants_increasing (h : Numbered doc) (hid : id < doc.size) :
    (doc.descendants id).Pairwise (· < ·) := by
  obtain ⟨below, hvisited, hincreasing⟩ := h.exists_below hid
  have hwalked := h.walked_of_visited hvisited
    (fun child hchild => h.isAttribute_eq_false_of_mem_children hchild) .done
  rw [List.append_nil, List.append_nil] at hwalked
  rw [(h.linked.walked id).1.unique hwalked]
  exact hincreasing.filter _

theorem children_increasing (h : Numbered doc) (hid : id < doc.size) :
    (doc.children id).Pairwise (· < ·) := by
  obtain ⟨below, hvisited, hincreasing⟩ := h.exists_below hid
  exact hincreasing.sublist hvisited.sublist

end Numbered

end Schematron.Xml.Document
