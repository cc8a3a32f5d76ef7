import Schematron.Proofs.Xml.Merging
import Schematron.Proofs.Xml.Readback
import Schematron.Proofs.Xml.Stripping

/-!
# Settled trees

What becomes of trees that are put into a document: of the declarations of one prefix the first
stays, attributes of one expanded name are made one, and so are texts side by side, and empty texts
are dropped (`Tree.settleAll`). A document of trees is therefore the document of the settled ones
(`Document.ofForest_settleAll`), which are its forest (`Document.forest_ofForest`).

Settling goes together with leaving comments out, in either order (`Tree.bareAll_settleAll`).
-/

namespace Schematron.Xml

namespace Tree

/-! ## Declarations -/

/-- The declarations with one more, unless its prefix is among theirs. -/
def addDeclaration (declarations : List Declaration) (d : Declaration) : List Declaration :=
  if declarations.any (·.pre == d.pre) then declarations else declarations ++ [d]

/-- The first declaration of each prefix. -/
def firstOfEach (declarations : List Declaration) : List Declaration :=
  declarations.foldl addDeclaration []

theorem pairwise_foldl_addDeclaration {done : List Declaration} (declarations : List Declaration)
    (hdone : done.Pairwise fun a b => a.pre ≠ b.pre) :
    (declarations.foldl addDeclaration done).Pairwise fun a b => a.pre ≠ b.pre := by
  induction declarations generalizing done with
  | nil => exact hdone
  | cons d rest ih =>
      refine ih ?_
      rw [addDeclaration]
      split
      · exact hdone
      · next hnew =>
          refine List.pairwise_append.mpr ⟨hdone, List.pairwise_singleton _ _, fun a ha b hb => ?_⟩
          obtain rfl := List.mem_singleton.mp hb
          intro hsame
          exact hnew (List.any_eq_true.mpr ⟨a, ha, beq_iff_eq.mpr hsame⟩)

theorem foldl_addDeclaration {done declarations : List Declaration}
    (h : (done ++ declarations).Pairwise fun a b => a.pre ≠ b.pre) :
    declarations.foldl addDeclaration done = done ++ declarations := by
  induction declarations generalizing done with
  | nil => exact (List.append_nil done).symm
  | cons d rest ih =>
      have hnew : done.any (·.pre == d.pre) = false := by
        refine List.any_eq_false.mpr fun a ha hsame => ?_
        exact (List.pairwise_append.mp h).2.2 a ha d List.mem_cons_self (beq_iff_eq.mp hsame)
      rw [List.append_cons] at h ⊢
      rw [List.foldl_cons, addDeclaration, hnew]
      exact ih h

theorem pairwise_firstOfEach (declarations : List Declaration) :
    (firstOfEach declarations).Pairwise fun a b => a.pre ≠ b.pre :=
  pairwise_foldl_addDeclaration declarations .nil

@[simp] theorem firstOfEach_firstOfEach (declarations : List Declaration) :
    firstOfEach (firstOfEach declarations) = firstOfEach declarations := by
  have hpairwise := pairwise_firstOfEach declarations
  rw [← List.nil_append (firstOfEach declarations)] at hpairwise
  exact foldl_addDeclaration hpairwise

/-! ## Settling -/

/-- A text before settled trees; an empty one is dropped. -/
def settleText (value : String) (trees : List Tree) : List Tree :=
  if value.isEmpty then trees else putText value trees

mutual

/-- A tree that is settled, before settled trees. -/
def settleOnto : Tree → List Tree → List Tree
  | .element name declarations attributes children, rest =>
    .element name (firstOfEach declarations) (putAttributes [] attributes) (settleAll children) ::
      rest
  | .text value, rest => settleText value rest
  | .comment value, rest => .comment value :: rest

/-- The trees as they are when they are put into a document. -/
def settleAll : List Tree → List Tree
  | [] => []
  | tree :: rest => settleOnto tree (settleAll rest)

end

theorem textsApart_cons {tree : Tree} {trees : List Tree} (htree : tree.isText = false)
    (h : TextsApart trees) : TextsApart (tree :: trees) := by
  cases trees with
  | nil => exact List.isChain_singleton _
  | cons next rest => exact List.isChain_cons_cons.mpr ⟨by simp [htree], h⟩

theorem textsApart_settleText (value : String) {trees : List Tree} (h : TextsApart trees) :
    TextsApart (settleText value trees) := by
  rw [settleText]
  split
  · exact h
  · cases trees with
    | nil => exact List.isChain_singleton _
    | cons tree rest =>
        cases tree with
        | text more =>
            -- the longer text has the neighbour of the one it takes the place of
            cases rest with
            | nil => exact List.isChain_singleton _
            | cons next rest =>
                exact List.isChain_cons_cons.mpr ⟨(List.isChain_cons_cons.mp h).1, h.tail⟩
        | _ => exact List.isChain_cons_cons.mpr ⟨by simp [isText], h⟩

/-- The texts of settled trees stand apart. -/
theorem textsApart_settleAll (trees : List Tree) : TextsApart (settleAll trees) := by
  induction trees with
  | nil => exact .nil
  | cons tree rest ih =>
      cases tree with
      | element name declarations attributes children => exact textsApart_cons rfl ih
      | text value => exact textsApart_settleText value ih
      | comment value => exact textsApart_cons rfl ih

theorem properAll_settleText (value : String) {trees : List Tree} (h : ProperAll trees) :
    ProperAll (settleText value trees) := by
  rw [settleText]
  split
  · exact h
  · cases trees with
    | nil => exact ⟨trivial, h⟩
    | cons tree rest =>
        cases tree with
        | text more => exact ⟨trivial, h.2⟩
        | _ => exact ⟨trivial, h⟩

mutual

theorem properAll_settleOnto :
    (tree : Tree) → {rest : List Tree} → ProperAll rest → ProperAll (settleOnto tree rest)
  | .element _ declarations attributes children, _, h =>
      ⟨⟨pairwise_firstOfEach declarations, pairwise_putAttributes attributes .nil,
        textsApart_settleAll children, properAll_settleAll children⟩, h⟩
  | .text value, _, h => properAll_settleText value h
  | .comment _, _, h => ⟨trivial, h⟩

/-- Nothing in settled trees would be made one with something else. -/
theorem properAll_settleAll : (trees : List Tree) → ProperAll (settleAll trees)
  | [] => trivial
  | tree :: rest => properAll_settleOnto tree (properAll_settleAll rest)

end

theorem solidAll_settleText (value : String) {trees : List Tree} (h : SolidAll trees) :
    SolidAll (settleText value trees) := by
  rw [settleText]
  split
  · exact h
  · next hvalue =>
      have hvalue : value.isEmpty = false := by simpa using hvalue
      cases trees with
      | nil => exact ⟨hvalue, h⟩
      | cons tree rest =>
          cases tree with
          | text more =>
              have hboth : (value ++ more).isEmpty = false := by simp_all
              exact ⟨hboth, h.2⟩
          | _ => exact ⟨hvalue, h⟩

mutual

theorem solidAll_settleOnto :
    (tree : Tree) → {rest : List Tree} → SolidAll rest → SolidAll (settleOnto tree rest)
  | .element _ _ _ children, _, h => ⟨solidAll_settleAll children, h⟩
  | .text value, _, h => solidAll_settleText value h
  | .comment _, _, h => ⟨trivial, h⟩

/-- There are no empty texts in settled trees. -/
theorem solidAll_settleAll : (trees : List Tree) → SolidAll (settleAll trees)
  | [] => trivial
  | tree :: rest => solidAll_settleOnto tree (solidAll_settleAll rest)

end

/-! ## Settling and comments -/

theorem settleText_settleText (value more : String) (trees : List Tree) :
    settleText value (settleText more trees) = settleText (value ++ more) trees := by
  cases hvalue : value.isEmpty with
  | true =>
      obtain rfl : value = "" := by simpa using hvalue
      rw [String.empty_append]
      rfl
  | false =>
      cases hmore : more.isEmpty with
      | true =>
          obtain rfl : more = "" := by simpa using hmore
          rw [String.append_empty]
          rfl
      | false =>
          have hboth : (value ++ more).isEmpty = false := by simp_all
          simp [settleText, hvalue, hmore, hboth, putText_putText]

theorem settleAll_putText (value : String) (trees : List Tree) :
    settleAll (putText value trees) = settleText value (settleAll trees) := by
  cases trees with
  | nil => rfl
  | cons tree rest =>
      cases tree with
      | text more => exact (settleText_settleText value more _).symm
      | _ => rfl

theorem bareAll_settleText (value : String) (trees : List Tree) :
    bareAll (settleText value trees) = settleText value (bareAll trees) := by
  rw [settleText, settleText]
  split
  · rfl
  · rw [bareAll_eq_foldr, foldr_putText, ← bareAll_eq_foldr]

mutual

theorem settleAll_bareOnto : (tree : Tree) → {rest settled : List Tree} →
    settleAll rest = bareAll settled →
      settleAll (bareOnto tree rest) = bareAll (settleOnto tree settled)
  | .element name declarations attributes children, _, _, h => by
      rw [bareOnto, settleAll, settleOnto, settleOnto, bareAll, bareOnto,
        settleAll_bareAll children, h]
  | .text value, _, _, h => by
      rw [bareOnto, settleAll_putText, settleOnto, bareAll_settleText, h]
  | .comment _, _, _, h => h

/-- Trees can be settled after their comments are left out as well as before. -/
theorem settleAll_bareAll :
    (trees : List Tree) → settleAll (bareAll trees) = bareAll (settleAll trees)
  | [] => rfl
  | tree :: rest => settleAll_bareOnto tree (settleAll_bareAll rest)

end

/-- Trees that differ in comments do so when they are settled. -/
theorem SameButComments.settleAll {xs ys : List Tree} (h : SameButComments xs ys) :
    SameButComments (settleAll xs) (settleAll ys) := by
  rw [SameButComments, ← settleAll_bareAll, ← settleAll_bareAll, show Tree.bareAll xs = _ from h]

end Tree

/-! ## Documents of trees -/

namespace Document

open Xml.Tree

variable {doc : Document} {parent element : NodeId}

theorem setKind_kind (doc : Document) (id : NodeId) : doc.setKind id (doc.kind id) = doc := by
  refine ext_nodes (List.ext_getElem? fun i => ?_)
  rw [setKind, Array.toList_modify, List.getElem?_modify]
  split
  · next heq =>
      subst heq
      rw [kind, node_eq]
      cases doc.nodes.toList[id]? <;> rfl
  · exact id_map _

/-- The declarations of an element after some more. -/
theorem foldl_declare {name : Name} {done : List Declaration}
    (hkind : doc.kind element = .element name done) (declarations : List Declaration) :
    declarations.foldl (·.declare element ·) doc =
      doc.setKind element (.element name (declarations.foldl addDeclaration done)) := by
  induction declarations generalizing doc done with
  | nil =>
      rw [List.foldl_nil, List.foldl_nil, ← hkind, setKind_kind]
  | cons d rest ih =>
      rw [List.foldl_cons, List.foldl_cons, declare, hkind, addDeclaration]
      dsimp only
      split
      · exact ih hkind
      · have hset : (doc.setKind element (.element name (done ++ [d]))).kind element =
            .element name (done ++ [d]) := by
          rw [kind_setKind _ _ _ (lt_size_of_kind hkind (by simp)), if_pos rfl]
        rw [ih hset, setKind_setKind]

theorem opened_firstOfEach (hparent : parent < doc.size) (name : Name)
    (declarations : List Declaration) (attributes : List (Name × String)) :
    opened doc parent name declarations attributes =
      opened doc parent name (firstOfEach declarations) attributes := by
  have hkind : (doc.appendElement parent name).2.kind doc.size = .element name [] := by
    rw [appendElement, pushChild_eq, kind_pushListed _ hparent, if_pos rfl]
  rw [opened, opened, foldl_declare hkind, foldl_declare hkind, ← firstOfEach, ← firstOfEach,
    firstOfEach_firstOfEach]

mutual

theorem graftAll_settleOnto {doc : Document} {parent : NodeId} (hparent : parent < doc.size) :
    (tree : Tree) → ∀ rest : List Tree,
      doc.graftAll parent (settleOnto tree rest) = (doc.graft parent tree).2.graftAll parent rest
  | .element name declarations attributes children => by
      intro rest
      show ((opened doc parent name _ _).graftAll doc.size (settleAll children)).graftAll parent
          rest =
        ((opened doc parent name _ _).graftAll doc.size children).graftAll parent rest
      rw [graftAll_settleAll (size_lt_opened _ _ _ _ _) children,
        ← opened_putAttributes hparent name attributes (pairwise_firstOfEach declarations),
        ← opened_firstOfEach hparent]
  | .text value => fun rest => by
      rw [settleOnto, settleText, graft]
      split
      · next hvalue => rw [appendText, if_pos hvalue]
      · cases rest with
        | nil => rfl
        | cons tree rest =>
            cases tree with
            | text more =>
                show (doc.appendText parent (value ++ more)).2.graftAll parent rest =
                  ((doc.appendText parent value).2.appendText parent more).2.graftAll parent rest
                rw [appendText_appendText hparent]
            | _ => rfl
  | .comment value => fun _ => rfl

/-- Trees are put into a document as they are settled. -/
theorem graftAll_settleAll {doc : Document} {parent : NodeId} (hparent : parent < doc.size) :
    (trees : List Tree) → doc.graftAll parent (settleAll trees) = doc.graftAll parent trees
  | [] => rfl
  | tree :: rest => by
      rw [settleAll, graftAll_settleOnto hparent tree,
        graftAll_settleAll (Nat.lt_of_lt_of_le hparent (size_le_graft doc parent tree)) rest]
      rfl

end

theorem ofForest_settleAll (trees : List Tree) : ofForest (settleAll trees) = ofForest trees :=
  graftAll_settleAll Nat.one_pos trees

end Document

end Schematron.Xml
