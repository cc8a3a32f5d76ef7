import Schematron.Schema.Vocabulary

/-!
# Trees without comments

Of trees without their comments no two texts stand side by side that a comment was between before
(`Tree.bareAll`). Trees that differ in comments only are those that are the same without them, and
whatever reads no comments, and takes texts together, cannot tell them apart.
-/

namespace Schematron.Xml.Tree

/-! ## Leaving comments out -/

/-- A text before trees, made one with a text that they begin with. -/
def putText (value : String) : List Tree → List Tree
  | .text more :: rest => .text (value ++ more) :: rest
  | trees => .text value :: trees

mutual

/-- A tree without the comments in it, before trees without comments. -/
def bareOnto : Tree → List Tree → List Tree
  | .element name declarations attributes children, rest =>
    .element name declarations attributes (bareAll children) :: rest
  | .text value, rest => putText value rest
  | .comment _, rest => rest

/-- Trees without comments. -/
def bareAll : List Tree → List Tree
  | [] => []
  | tree :: rest => bareOnto tree (bareAll rest)

end

/-- A tree without the comments in it. -/
def bare : Tree → Tree
  | .element name declarations attributes children =>
    .element name declarations attributes (bareAll children)
  | tree => tree

@[simp] theorem bare_text (value : String) : bare (.text value) = .text value := rfl

@[simp] theorem bare_comment (value : String) : bare (.comment value) = .comment value := rfl

theorem putText_putText (value more : String) (trees : List Tree) :
    putText value (putText more trees) = putText (value ++ more) trees := by
  cases trees with
  | nil => rfl
  | cons tree rest =>
      cases tree with
      | text last => simp only [putText, String.append_assoc]
      | _ => rfl

theorem bareAll_eq_foldr (trees : List Tree) : bareAll trees = trees.foldr bareOnto [] := by
  induction trees with
  | nil => rfl
  | cons tree trees ih => rw [bareAll, ih, List.foldr_cons]

theorem bareAll_append (xs ys : List Tree) :
    bareAll (xs ++ ys) = xs.foldr bareOnto (bareAll ys) := by
  rw [bareAll_eq_foldr, bareAll_eq_foldr, List.foldr_append]

theorem foldr_putText (value : String) (trees rest : List Tree) :
    (putText value trees).foldr bareOnto rest = putText value (trees.foldr bareOnto rest) := by
  cases trees with
  | nil => rfl
  | cons tree trees =>
      cases tree with
      | text more => exact (putText_putText value more _).symm
      | _ => rfl

mutual

theorem foldr_bareOnto : (tree : Tree) → ∀ done rest : List Tree,
    (bareOnto tree done).foldr bareOnto rest = bareOnto tree (done.foldr bareOnto rest)
  | .element name declarations attributes children => by
      intro done rest
      have hchildren : bareAll (bareAll children) = bareAll children := by
        rw [bareAll_eq_foldr, foldr_bareAll children, ← bareAll_eq_foldr]
      rw [bareOnto, List.foldr_cons, bareOnto, bareOnto, hchildren]
  | .text value => foldr_putText value
  | .comment _ => fun _ _ => rfl

theorem foldr_bareAll : (trees : List Tree) → ∀ rest : List Tree,
    (bareAll trees).foldr bareOnto rest = trees.foldr bareOnto rest
  | [] => fun _ => rfl
  | tree :: trees => by
      intro rest
      rw [bareAll, foldr_bareOnto tree, foldr_bareAll trees, List.foldr_cons]

end

@[simp] theorem bareAll_bareAll (trees : List Tree) : bareAll (bareAll trees) = bareAll trees := by
  rw [bareAll_eq_foldr, foldr_bareAll, ← bareAll_eq_foldr]

@[simp] theorem bare_bare (tree : Tree) : bare (bare tree) = bare tree := by
  cases tree <;> simp [bare]

/-! ## Trees that differ in comments -/

/-- Without their comments the trees are the same. -/
def SameButComments (xs ys : List Tree) : Prop := bareAll xs = bareAll ys

namespace SameButComments

variable {xs xs' ys ys' zs : List Tree}

theorem refl (xs : List Tree) : SameButComments xs xs := rfl

theorem symm (h : SameButComments xs ys) : SameButComments ys xs := Eq.symm h

theorem trans (h : SameButComments xs ys) (h' : SameButComments ys zs) : SameButComments xs zs :=
  Eq.trans h h'

theorem append (hx : SameButComments xs xs') (hy : SameButComments ys ys') :
    SameButComments (xs ++ ys) (xs' ++ ys') := by
  rw [SameButComments, bareAll_append, bareAll_append, ← foldr_bareAll xs, ← foldr_bareAll xs',
    show bareAll xs = bareAll xs' from hx, show bareAll ys = bareAll ys' from hy]

theorem bareAll (xs : List Tree) : SameButComments (bareAll xs) xs := bareAll_bareAll xs

/-- Elements whose children differ in comments. -/
theorem element (name : Name) (declarations : List Declaration) (attributes : List (Name × String))
    (h : SameButComments xs ys) :
    SameButComments [.element name declarations attributes xs]
      [.element name declarations attributes ys] :=
  congrArg (fun children => [Tree.element name declarations attributes children]) h

theorem comment (value : String) : SameButComments [.comment value] [] := rfl

/-- A text that is cut in two. -/
theorem texts (value more : String) :
    SameButComments [.text value, .text more] [.text (value ++ more)] := rfl

end SameButComments

/-! ## What is read of a tree -/

@[simp] theorem name?_bare (tree : Tree) : tree.bare.name? = tree.name? := by
  cases tree <;> rfl

@[simp] theorem attributes_bare (tree : Tree) : tree.bare.attributes = tree.attributes := by
  cases tree <;> rfl

@[simp] theorem children_bare (tree : Tree) : tree.bare.children = bareAll tree.children := by
  cases tree <;> rfl

@[simp] theorem attribute?_bare (tree : Tree) (localPart : String) :
    tree.bare.attribute? localPart = tree.attribute? localPart := by
  rw [attribute?, attributes_bare, ← attribute?]

@[simp] theorem setting?_bare (tree : Tree) (localPart : String) :
    tree.bare.setting? localPart = tree.setting? localPart := by
  rw [setting?, attribute?_bare, ← setting?]

@[simp] theorem schemaName?_bare (tree : Tree) : tree.bare.schemaName? = tree.schemaName? := by
  rw [schemaName?, name?_bare, ← schemaName?]

@[simp] theorem isSchemaElement_bare (tree : Tree) (localPart : String) :
    tree.bare.isSchemaElement localPart = tree.isSchemaElement localPart := by
  rw [isSchemaElement, schemaName?_bare, ← isSchemaElement]

@[simp] theorem isAnyElement_bare (tree : Tree) : tree.bare.isAnyElement = tree.isAnyElement := by
  rw [isAnyElement, name?_bare, ← isAnyElement]

@[simp] theorem isAbstract_bare (tree : Tree) : tree.bare.isAbstract = tree.isAbstract := by
  rw [isAbstract, setting?_bare, ← isAbstract]

theorem stringValueOfAll_putText (value : String) (trees : List Tree) :
    stringValueOfAll (putText value trees) = value ++ stringValueOfAll trees := by
  cases trees with
  | nil => rfl
  | cons tree rest =>
      cases tree with
      | text more => simp only [putText, stringValueOfAll, stringValue, String.append_assoc]
      | _ => rfl

mutual

theorem stringValueOfAll_bareOnto : (tree : Tree) → ∀ rest : List Tree,
    stringValueOfAll (bareOnto tree rest) = tree.stringValue ++ stringValueOfAll rest
  | .element name declarations attributes children => by
      intro rest
      rw [bareOnto, stringValueOfAll, stringValue, stringValue, stringValueOfAll_bareAll children]
  | .text value => stringValueOfAll_putText value
  | .comment _ => fun rest => (String.empty_append).symm

/-- Comments have no text. -/
theorem stringValueOfAll_bareAll : (trees : List Tree) →
    stringValueOfAll (bareAll trees) = stringValueOfAll trees
  | [] => rfl
  | tree :: rest => by
      rw [bareAll, stringValueOfAll_bareOnto tree, stringValueOfAll_bareAll rest, stringValueOfAll]

end

@[simp] theorem stringValue_bare (tree : Tree) : tree.bare.stringValue = tree.stringValue := by
  cases tree with
  | element name declarations attributes children => exact stringValueOfAll_bareAll children
  | text value => rfl
  | comment value => rfl

/-! ## Elements among trees -/

theorem bareAll_singleton {tree : Tree} (h : tree.isAnyElement = true) :
    bareAll [tree] = [tree.bare] := by
  cases tree with
  | element name declarations attributes children => rfl
  | _ => cases h

/-- A property that texts and comments do not have, and that comments do not change. -/
structure OfElements (p : Tree → Bool) : Prop where
  text : ∀ value, p (.text value) = false
  comment : ∀ value, p (.comment value) = false
  bare : ∀ tree, p tree.bare = p tree

theorem OfElements.isSchemaElement (localPart : String) : OfElements (isSchemaElement localPart) :=
  ⟨fun _ => rfl, fun _ => rfl, fun tree => isSchemaElement_bare tree localPart⟩

theorem OfElements.isAnyElement : OfElements Tree.isAnyElement :=
  ⟨fun _ => rfl, fun _ => rfl, isAnyElement_bare⟩

section

variable {p : Tree → Bool}

theorem filter_putText (hp : OfElements p) (value : String) (trees : List Tree) :
    (putText value trees).filter p = trees.filter p := by
  cases trees with
  | nil => simp [putText, hp.text]
  | cons tree rest => cases tree <;> simp [putText, hp.text]

/-- The elements of a property are the same without comments. -/
theorem filter_bareAll (hp : OfElements p) (trees : List Tree) :
    (bareAll trees).filter p = (trees.filter p).map bare := by
  induction trees with
  | nil => rfl
  | cons tree rest ih =>
      cases tree with
      | element name declarations attributes children =>
          have hbare := hp.bare (.element name declarations attributes children)
          rw [bareAll, bareOnto, List.filter_cons, List.filter_cons, ih]
          rw [bare] at hbare
          rw [hbare]
          split <;> rfl
      | text value =>
          rw [bareAll, bareOnto, filter_putText hp, ih, List.filter_cons_of_neg (by simp [hp.text])]
      | comment value =>
          rw [bareAll, bareOnto, ih, List.filter_cons_of_neg (by simp [hp.comment])]

theorem find?_bareAll (hp : OfElements p) (trees : List Tree) :
    (bareAll trees).find? p = (trees.find? p).map bare := by
  rw [← List.head?_filter, ← List.head?_filter, filter_bareAll hp, List.head?_map]

end

@[simp] theorem schemaChildren_bare (tree : Tree) (localPart : String) :
    tree.bare.schemaChildren localPart = (tree.schemaChildren localPart).map bare := by
  rw [schemaChildren, children_bare, filter_bareAll (.isSchemaElement localPart), ← schemaChildren]

/-! ## Elements below a tree -/

section

variable {p : Tree → Bool}

theorem filter_preorderOfAll_putText (hp : OfElements p) (value : String) (trees : List Tree) :
    (preorderOfAll (putText value trees)).filter p = (preorderOfAll trees).filter p := by
  cases trees with
  | nil => simp [putText, preorderOfAll, preorder, hp.text]
  | cons tree rest => cases tree <;> simp [putText, preorderOfAll, preorder, hp.text]

mutual

theorem filter_preorderOfAll_bareOnto (hp : OfElements p) :
    (tree : Tree) → ∀ rest : List Tree, (preorderOfAll (bareOnto tree rest)).filter p =
      (tree.preorder.filter p).map bare ++ (preorderOfAll rest).filter p
  | .element name declarations attributes children => by
      intro rest
      have hbare := hp.bare (.element name declarations attributes children)
      have hchildren := filter_preorderOfAll_bareAll hp children
      rw [bare] at hbare
      rw [bareOnto, preorderOfAll, preorder, preorder, List.filter_append, List.filter_cons,
        List.filter_cons, hchildren, hbare]
      split <;> rfl
  | .text value => fun rest => by
      rw [bareOnto, filter_preorderOfAll_putText hp]
      simp [preorder, hp.text]
  | .comment value => fun rest => by simp [bareOnto, preorder, hp.comment]

theorem filter_preorderOfAll_bareAll (hp : OfElements p) :
    (trees : List Tree) →
      (preorderOfAll (bareAll trees)).filter p = ((preorderOfAll trees).filter p).map bare
  | [] => rfl
  | tree :: rest => by
      rw [bareAll, filter_preorderOfAll_bareOnto hp tree, filter_preorderOfAll_bareAll hp rest,
        preorderOfAll, List.filter_append, List.map_append]

end

/-- The elements of a property below a tree are the same without comments. -/
theorem filter_descendants_bare (hp : OfElements p) (tree : Tree) :
    tree.bare.descendants.filter p = (tree.descendants.filter p).map bare := by
  rw [descendants, children_bare, filter_preorderOfAll_bareAll hp, ← descendants]

end

end Schematron.Xml.Tree
