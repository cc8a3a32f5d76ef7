import Schematron.Proofs.Schema.Lockstep
import Schematron.Proofs.Xml.Sites
import Schematron.Schema.Inclusion

/-!
# Inclusion without comments

Documents that differ in comments, expanded with resolvers whose resources differ in comments, end
with the same fault, or in documents that differ in comments, with the same warnings
(`expandInclusions_same`). A reference is found by its element, its id and the document element are
those of elements, and what is put in place of it is what stands in the document.
-/

namespace Schematron.Schema

open Xml (Document NodeId Site Tree)
open Xml.Document (SameElement SameDocument)
open Xml.Tree (SameButComments bare bareAll)
open Resource (Resolver)

variable {resolver resolver' : Resolver}

/-- The resolvers find the same resources, but for comments where these can be read. -/
def SameResources (resolver resolver' : Resolver) : Prop :=
  ∀ path, Corresponds (fun bytes bytes' => Corresponds SameDocument (Document.parseBytes bytes)
    (Document.parseBytes bytes')) (resolver path) (resolver' path)

theorem SameResources.right (h : SameResources resolver resolver') :
    SameResources resolver' resolver' :=
  fun path => (h path).right fun _ _ hparsed => hparsed.right fun _ _ => SameDocument.right

namespace Inclusion

/-- The documents of the sources differ in comments. -/
structure SameSource (source source' : Source) : Prop where
  doc : SameDocument source.doc source'.doc
  resource : source.resource = source'.resource

/-! ## References -/

theorem readReference_bare (chain : List String) (resource : String) (tree : Tree) :
    readReference chain resource tree.bare = readReference chain resource tree := by
  simp only [readReference, Xml.Tree.setting?_bare, Xml.Tree.name?_bare]

theorem openSource_same (hresolver : SameResources resolver resolver') {source source' : Source}
    (hsource : SameSource source source') (reference : Reference) :
    Corresponds SameSource (openSource resolver source reference)
      (openSource resolver' source' reference) := by
  rw [openSource, openSource]
  split
  · exact .result hsource
  · have hfound := hresolver reference.resource
    revert hfound
    generalize resolver reference.resource = found
    generalize resolver' reference.resource = found'
    intro hfound
    cases hfound with
    | fault missing => exact .fault _
    | @result bytes bytes' hparsed =>
        dsimp only
        revert hparsed
        generalize Document.parseBytes bytes = parsed
        generalize Document.parseBytes bytes' = parsed'
        intro hparsed
        cases hparsed with
        | fault cause => exact .fault _
        | result hdoc => exact .result ⟨hdoc, rfl⟩

theorem findById?_same {doc doc' : Document} (h : SameDocument doc doc') (wanted : String) :
    Option.Rel (doc.SameElement doc') (findById? doc wanted) (findById? doc' wanted) := by
  have hfind (doc : Document) : findById? doc wanted =
      ((List.range doc.size).filter doc.isElement).find?
        fun id => doc.attribute? id "id" == some wanted := by
    rw [findById?, List.find?_filter]
    congr 1
    funext id
    rw [Bool.decide_and, Bool.decide_coe, Bool.decide_coe]
  rw [hfind, hfind]
  exact Xml.rel_find? h.elements fun id id' helement => by rw [helement.attribute?_eq]

theorem findTarget_same {source source' : Source} (h : SameSource source source')
    (reference : Reference) :
    Corresponds (source.doc.SameElement source'.doc) (findTarget source reference)
      (findTarget source' reference) := by
  rw [findTarget, findTarget, h.resource]
  split
  · next fragment hfragment =>
      have hfound := findById?_same h.doc fragment
      revert hfound
      generalize findById? source.doc fragment = found
      generalize findById? source'.doc fragment = found'
      intro hfound
      cases hfound with
      | none => exact .fault _
      | some helement => exact .result helement
  · have hfound := h.doc.documentElement?
    revert hfound
    generalize source.doc.documentElement? = found
    generalize source'.doc.documentElement? = found'
    intro hfound
    cases hfound with
    | none => exact .fault _
    | some helement => exact .result helement

theorem spliced_same {doc doc' : Document} (h : SameDocument doc doc') {id id' : NodeId}
    (helement : doc.SameElement doc' id id') (splice : Splice) :
    SameButComments (spliced splice doc id) (spliced splice doc' id') := by
  obtain ⟨hlinked, hlinked'⟩ := h.linked
  cases splice with
  | element =>
      obtain ⟨tree, tree', htree, htree', hsame⟩ := helement.scopedTree? hlinked hlinked'
      rw [spliced, spliced, htree, htree']
      exact hsame
  | content => exact helement.scopedChildren hlinked hlinked'

theorem foreignWarning?_same {source source' : Source} (h : SameSource source source')
    {id id' : NodeId} (helement : source.doc.SameElement source'.doc id id') (splice : Splice)
    (resource : String) :
    foreignWarning? splice resource source id = foreignWarning? splice resource source' id' := by
  cases splice with
  | content => rfl
  | element =>
      obtain ⟨tree, tree', htree, htree', hsame⟩ := helement.tree?
      rw [foreignWarning?, foreignWarning?, htree, htree', h.resource]
      dsimp only
      rw [← Xml.Tree.schemaName?_bare tree, ← Xml.Tree.name?_bare tree, hsame,
        Xml.Tree.schemaName?_bare, Xml.Tree.name?_bare]

/-! ## Replacing references -/

theorem gathers_replace (refer : Splice → Tree → StageRun (List Tree)) :
    Gathers (replace refer) (replaceAll refer) (fun value => [.text value])
      fun value => [.comment value] where
  nil := rfl
  cons _ _ := rfl
  text _ := rfl
  comment _ := rfl

/-- What the references are replaced by differs in comments. -/
def ReferSame (refer refer' : Splice → Tree → StageRun (List Tree)) : Prop :=
  ∀ splice tree, Together Eq SameButComments (refer splice tree) (refer' splice tree.bare)

theorem splice_bare (tree : Tree) : Splice.of? tree.bare = Splice.of? tree := by
  rw [Splice.of?, Splice.of?, Xml.Tree.schemaName?_bare, Xml.Tree.attribute?_bare]

section

variable {refer refer' : Splice → Tree → StageRun (List Tree)}

mutual

theorem replace_bare (h : ReferSame refer refer') :
    (tree : Tree) → Together Eq SameButComments (replace refer tree) (replace refer' tree.bare)
  | .text _ => .pure rfl
  | .comment _ => .pure rfl
  | .element name declarations attributes children => by
      have hsplice := splice_bare (.element name declarations attributes children)
      have hrefer (splice : Splice) := h splice (.element name declarations attributes children)
      rw [bare] at hsplice hrefer
      rw [bare, replace, replace, hsplice]
      split
      · next splice _ => exact hrefer splice
      · exact (replaceAll_bare h children).bind fun _ _ hchildren =>
          .pure (.element name declarations attributes hchildren)

theorem replaceAll_bare (h : ReferSame refer refer') :
    (trees : List Tree) →
      Together Eq SameButComments (replaceAll refer trees) (replaceAll refer' (bareAll trees))
  | [] => .pure rfl
  | tree :: rest =>
      (gathers_replace refer).together_cons merging_trees (gathers_replace refer')
        (fun _ => replace_bare h tree) (replaceAll_bare h rest)

end

theorem replaceAll_same (h : ReferSame refer refer') (h' : ReferSame refer' refer')
    {trees trees' : List Tree} (htrees : SameButComments trees trees') :
    Together Eq SameButComments (replaceAll refer trees) (replaceAll refer' trees') := by
  have hleft := replaceAll_bare h trees
  have hright := replaceAll_bare h' trees'
  rw [show bareAll trees = bareAll trees' from htrees] at hleft
  exact hleft.trans (fun _ _ => Eq.symm) (fun _ _ _ => Eq.trans) (fun _ _ _ => .trans)
    (hright.symm (fun _ _ => eq_comm) fun _ _ => .symm)

end

/-! ## Expansion -/

theorem SameSource.right {source source' : Source} (h : SameSource source source') :
    SameSource source' source' := ⟨h.doc.right, rfl⟩

theorem referSame_refer (options : InclusionOptions) (depth : Nat) {resolver resolver' : Resolver}
    (hresolver : SameResources resolver resolver') (chain : List String) {source source' : Source}
    (hsource : SameSource source source') :
    ReferSame (refer resolver options depth chain source)
      (refer resolver' options depth chain source') := by
  intro splice tree
  induction depth generalizing resolver chain source source' splice tree with
  | zero =>
      rw [refer, refer, readReference_bare, hsource.resource]
      exact (Together.refl _).bind fun _ _ h => h ▸ .throw
  | succ depth ih =>
      rw [refer, refer, readReference_bare, hsource.resource]
      refine (Together.refl _).bind fun reference _ h => ?_
      subst h
      refine (Together.ofExcept (openSource_same hresolver hsource reference)).bind
        fun opened opened' hopened => ?_
      refine (Together.ofExcept (findTarget_same hopened reference)).bind
        fun target target' htarget => ?_
      have hplaced := replaceAll_same (ih hresolver (chain ++ [reference.key]) hopened)
        (ih hresolver.right (chain ++ [reference.key]) hopened.right)
        (spliced_same hopened.doc htarget splice)
      dsimp only
      rw [foreignWarning?_same hopened htarget]
      split
      · exact (Together.refl _).bind fun _ _ _ => hplaced
      · exact hplaced

end Inclusion

/-- Documents that differ in comments are expanded to documents that differ in comments. -/
theorem expandInclusions_same (hresolver : SameResources resolver resolver')
    (options : InclusionOptions) (resource : String) {schema schema' : Document}
    (hschema : SameDocument schema schema') :
    Together Eq SameDocument (expandInclusions resolver options resource schema)
      (expandInclusions resolver' options resource schema') := by
  have hsource : Inclusion.SameSource ⟨schema, resource⟩ ⟨schema', resource⟩ := ⟨hschema, rfl⟩
  have hrefer := Inclusion.referSame_refer options options.maxDepth hresolver [resource] hsource
  have hrefer' := Inclusion.referSame_refer options options.maxDepth hresolver.right [resource]
    hsource.right
  exact (Inclusion.replaceAll_same hrefer hrefer' hschema.scopedChildren).bind
    fun _ _ htrees => .pure (.ofForest htrees)

end Schematron.Schema
