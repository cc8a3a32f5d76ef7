import Schematron.Proofs.Xml.Parsed
import Schematron.Proofs.Xml.Sites

/-!
# Properties of all elements

The elements of a document are those in the trees it is made of, at any depth
(`MadeOf.mem_preorderOfAll`). So what holds of all elements of a document is a matter of its trees,
and there it can be shown tree by tree (`Tree.AllElements`).

Settling makes no new elements: each is one that there was before, with its declarations and
attributes made one and with settled content (`Tree.allElements_settleAll`).
-/

namespace Schematron.Xml

namespace Tree

/-! ## Elements of trees -/

/-- The property holds of every element in the trees, at any depth. -/
def AllElements (P : Tree → Prop) (trees : List Tree) : Prop :=
  ∀ tree ∈ preorderOfAll trees, tree.isAnyElement = true → P tree

section

variable {P Q : Tree → Prop} {tree : Tree} {trees more : List Tree}

@[simp] theorem allElements_nil : AllElements P [] := nofun

theorem preorderOfAll_append (trees more : List Tree) :
    preorderOfAll (trees ++ more) = preorderOfAll trees ++ preorderOfAll more := by
  induction trees with
  | nil => rfl
  | cons tree rest ih =>
      rw [List.cons_append, preorderOfAll, preorderOfAll, ih, List.append_assoc]

theorem allElements_append :
    AllElements P (trees ++ more) ↔ AllElements P trees ∧ AllElements P more := by
  simp only [AllElements, preorderOfAll_append, List.forall_mem_append]

theorem allElements_cons :
    AllElements P (tree :: trees) ↔ AllElements P [tree] ∧ AllElements P trees := by
  rw [← List.singleton_append, allElements_append]

theorem allElements_of_forall_mem (h : ∀ tree ∈ trees, AllElements P [tree]) :
    AllElements P trees := by
  induction trees with
  | nil => exact allElements_nil
  | cons tree rest ih =>
      obtain ⟨htree, hrest⟩ := List.forall_mem_cons.mp h
      exact allElements_cons.mpr ⟨htree, ih hrest⟩

theorem allElements_element {name : Name} {declarations : List Declaration}
    {attributes : List (Name × String)} {children : List Tree} :
    AllElements P [.element name declarations attributes children] ↔
      P (.element name declarations attributes children) ∧ AllElements P children := by
  simp only [AllElements, preorderOfAll, preorder, List.append_nil, List.forall_mem_cons]
  exact and_congr_left fun _ => forall_prop_of_true rfl

theorem allElements_of_name?_eq_none (h : tree.name? = none) : AllElements P [tree] := by
  intro other hother helement
  cases tree with
  | element => cases h
  | text value =>
      obtain rfl := List.mem_singleton.mp hother
      cases helement
  | comment value =>
      obtain rfl := List.mem_singleton.mp hother
      cases helement

/-- What holds of all elements of a tree holds of all elements of its content. -/
theorem AllElements.children (h : AllElements P [tree]) : AllElements P tree.children := by
  cases tree with
  | element name declarations attributes children => exact (allElements_element.mp h).2
  | text value => exact allElements_nil
  | comment value => exact allElements_nil

mutual

theorem preorder_subset : (root : Tree) → {tree : Tree} → tree ∈ preorder root →
    preorder tree ⊆ preorder root
  | .element name declarations attributes children, tree, h => by
      rw [preorder] at h ⊢
      rcases List.mem_cons.mp h with rfl | hbelow
      · exact List.Subset.refl _
      · exact List.subset_cons_of_subset _ (preorder_subset_all children hbelow)
  | .text value, tree, h => by
      obtain rfl := List.mem_singleton.mp h
      exact List.Subset.refl _
  | .comment value, tree, h => by
      obtain rfl := List.mem_singleton.mp h
      exact List.Subset.refl _

theorem preorder_subset_all : (roots : List Tree) → {tree : Tree} → tree ∈ preorderOfAll roots →
    preorder tree ⊆ preorderOfAll roots
  | root :: rest, tree, h => by
      rw [preorderOfAll] at h ⊢
      rcases List.mem_append.mp h with htree | hrest
      · exact List.subset_append_of_subset_left _ (preorder_subset root htree)
      · exact List.subset_append_of_subset_right _ (preorder_subset_all rest hrest)

end

/-- What holds of all elements of trees holds of those in any tree below them. -/
theorem AllElements.below (h : AllElements P trees) (htree : tree ∈ preorderOfAll trees) :
    AllElements P [tree] := by
  intro other hother
  rw [preorderOfAll, preorderOfAll, List.append_nil] at hother
  exact h other (preorder_subset_all trees htree hother)

mutual

theorem Proper.allElements : (tree : Tree) → Proper tree → AllElements Proper [tree]
  | .element _ _ _ children, h =>
      allElements_element.mpr ⟨h, ProperAll.allElements children h.2.2.2⟩
  | .text _, _ => allElements_of_name?_eq_none rfl
  | .comment _, _ => allElements_of_name?_eq_none rfl

/-- Every element in proper trees is proper. -/
theorem ProperAll.allElements :
    (trees : List Tree) → ProperAll trees → AllElements Proper trees
  | [], _ => allElements_nil
  | tree :: rest, h =>
      allElements_cons.mpr ⟨Proper.allElements tree h.1, ProperAll.allElements rest h.2⟩

end

/-- A text in front of settled trees. -/
theorem allElements_settleText (value : String) (h : AllElements P trees) :
    AllElements P (settleText value trees) := by
  rw [settleText]
  split
  · exact h
  · cases trees with
    | nil => exact allElements_of_name?_eq_none rfl
    | cons first rest =>
        -- a text at the front is made one with it, and has no elements either way
        have hrest := (allElements_cons.mp h).2
        cases first with
        | text more => exact allElements_cons.mpr ⟨allElements_of_name?_eq_none rfl, hrest⟩
        | element => exact allElements_cons.mpr ⟨allElements_of_name?_eq_none rfl, h⟩
        | comment => exact allElements_cons.mpr ⟨allElements_of_name?_eq_none rfl, h⟩

mutual

theorem allElements_settleOnto (hsettled : ∀ name declarations attributes children,
      P (.element name declarations attributes children) →
        Q (.element name (firstOfEach declarations) (putAttributes [] attributes)
          (settleAll children))) :
    (tree : Tree) → {rest : List Tree} → AllElements P [tree] → AllElements Q rest →
      AllElements Q (settleOnto tree rest)
  | .element name declarations attributes children, _, h, hrest => by
      obtain ⟨htop, hchildren⟩ := allElements_element.mp h
      refine allElements_cons.mpr ⟨allElements_element.mpr ⟨?_, ?_⟩, hrest⟩
      · exact hsettled name declarations attributes children htop
      · exact allElements_settleAll hsettled children hchildren
  | .text value, _, _, hrest => allElements_settleText value hrest
  | .comment _, _, _, hrest =>
      allElements_cons.mpr ⟨allElements_of_name?_eq_none rfl, hrest⟩

/-- What settling leaves of all elements holds of all elements of settled trees. -/
theorem allElements_settleAll (hsettled : ∀ name declarations attributes children,
      P (.element name declarations attributes children) →
        Q (.element name (firstOfEach declarations) (putAttributes [] attributes)
          (settleAll children))) :
    (trees : List Tree) → AllElements P trees → AllElements Q (settleAll trees)
  | [], _ => allElements_nil
  | tree :: rest, h => by
      obtain ⟨htree, hrest⟩ := allElements_cons.mp h
      exact allElements_settleOnto hsettled tree htree (allElements_settleAll hsettled rest hrest)

end

end

end Tree

namespace Document

open Xml.Tree

variable {doc : Document} {trees : List Tree}

/-! ## Elements of documents -/

/-- The property holds of every element of the document. -/
def AllElements (P : Tree → Prop) (doc : Document) : Prop :=
  ∀ id tree, doc.tree? id = some tree → tree.isAnyElement = true → P tree

theorem isElement_of_tree? {id : NodeId} {tree : Tree} (h : doc.tree? id = some tree)
    (helement : tree.isAnyElement = true) : doc.isElement id = true := by
  rw [tree?] at h
  cases hsize : doc.size with
  | zero =>
      rw [hsize] at h
      cases h
  | succ depth =>
      rw [hsize, treeWithin] at h
      rw [isElement]
      cases hkind : doc.kind id with
      | element => rfl
      | text =>
          rw [hkind] at h
          cases h
          cases helement
      | comment =>
          rw [hkind] at h
          cases h
          cases helement
      | document =>
          rw [hkind] at h
          cases h
      | «attribute» =>
          rw [hkind] at h
          cases h

/-- The elements of a document are those in its trees. -/
theorem MadeOf.mem_preorderOfAll (h : doc.MadeOf trees) {tree : Tree}
    (helement : tree.isAnyElement = true) :
    tree ∈ preorderOfAll trees ↔ ∃ id, doc.tree? id = some tree := by
  have hnodes := filterMap_tree?_trees trees h.holds h.solid
  constructor
  · intro hmem
    rw [← hnodes] at hmem
    obtain ⟨id, -, htree⟩ := List.mem_filterMap.mp hmem
    exact ⟨id, htree⟩
  · rintro ⟨id, htree⟩
    have hid := isElement_of_tree? htree helement
    -- only the document node stands before the block of the trees, and it is no element
    have hrange : id ∈ (List.range' 1 (weightOfAll trees)).filter doc.isElement := by
      rw [List.mem_filter, List.mem_range'_1, ← h.size]
      refine ⟨⟨?_, ?_⟩, hid⟩
      · rcases Nat.eq_zero_or_pos id with rfl | hpos
        · rw [isElement, show (0 : NodeId) = rootNode from rfl, h.linked.kind_root] at hid
          cases hid
        · exact hpos
      · by_contra hlt
        rw [isElement, kind, node_of_size_le (Nat.le_of_not_lt hlt)] at hid
        cases hid
    rw [filter_isElement_trees trees h.holds] at hrange
    rw [← hnodes]
    exact List.mem_filterMap.mpr ⟨id, List.mem_of_mem_filter hrange, htree⟩

end Document

end Schematron.Xml
