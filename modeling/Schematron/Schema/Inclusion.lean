import Schematron.Resource.Resolver
import Schematron.Schema.Diagnostic
import Schematron.Schema.StageProgram
import Schematron.Schema.Vocabulary
import Schematron.Xml.Reader

/-!
# Inclusion expansion

An `include` is replaced by the element it refers to: the document element of a resource, or the
element with an id. An `extends` with an `href` is replaced by the children of that element. What
is put in is expanded itself, its references counting from the resource they stand in.

The references that are open at a place form a chain. A reference to what is open already is a
cycle, and a chain has a greatest length; the recursion is on the references that may still be
opened.
-/

namespace Schematron.Schema

open Xml (Document NodeId Tree)
open Resource (Resolver joinPath)

/-- What a reference is replaced by: the element it refers to, or the children of that. -/
inductive Splice where
  | element | content
  deriving DecidableEq, Repr

/-- The splice that an element stands for, if it is a reference. -/
def Splice.of? (tree : Tree) : Option Splice :=
  match tree.schemaName? with
  | some "include" => some .element
  | some "extends" => if (tree.attribute? "href").isSome then some .content else none
  | _ => none

namespace Inclusion

mutual

/-- A tree in which every outermost reference is replaced by what `refer` makes of it. -/
def replace (refer : Splice → Tree → StageRun (List Tree)) : Tree → StageRun (List Tree)
  | .element name declarations attributes children => do
    match Splice.of? (.element name declarations attributes children) with
    | some splice => refer splice (.element name declarations attributes children)
    | none =>
      let children ← replaceAll refer children
      pure [.element name declarations attributes children]
  | tree => pure [tree]

/-- Trees one after the other, with their references replaced. -/
def replaceAll (refer : Splice → Tree → StageRun (List Tree)) : List Tree → StageRun (List Tree)
  | [] => pure []
  | tree :: rest => do
    let expanded ← replace refer tree
    let others ← replaceAll refer rest
    pure (expanded ++ others)

end

/-! ## References -/

/-- A document with the path of the resource it was read from. -/
structure Source where
  doc : Document
  resource : String

/-- What a reference says: a resource, which is the one it stands in if none is named, and the id
of an element. -/
structure Reference where
  resource : String
  isLocal : Bool
  fragment : Option String
  deriving DecidableEq, Repr

/-- The reference of an `href` in a resource. -/
def Reference.ofHref (base href : String) : Reference :=
  let (path, fragment) :=
    match Text.cutAt? (· == '#') href.toList with
    | some (path, fragment) => (path, some (String.ofList fragment))
    | none => (href.toList, none)
  if path.isEmpty then ⟨base, true, fragment⟩
  else ⟨joinPath base (String.ofList path), false, fragment⟩

/-- What a reference is known by in a chain. -/
def Reference.key (reference : Reference) : String :=
  match reference.fragment with
  | some fragment => reference.resource ++ "#" ++ fragment
  | none => reference.resource

/-- The first element of a document with an id. -/
def findById? (doc : Document) (wanted : String) : Option NodeId :=
  (List.range doc.size).find? fun id => doc.isElement id && doc.attribute? id "id" == some wanted

/-- The reference of an element that stands in a resource, when it does not close a cycle. -/
def readReference (chain : List String) (resource : String) (tree : Tree) :
    Except Diagnostic Reference := do
  let some href := tree.setting? "href"
    | .error (.error
        ("<" ++ (tree.name?.elim "" (·.written)) ++ "> in " ++ resource ++ " has no href"))
  let reference := Reference.ofHref resource href
  if chain.contains reference.key then
    .error (.fatal ("Inclusion cycle: " ++ String.intercalate " -> " chain ++ " -> " ++
      reference.key))
  else .ok reference

/-- The source that a reference leads to. -/
def openSource (resolver : Resolver) (source : Source) (reference : Reference) :
    Except Diagnostic Source :=
  if reference.isLocal then .ok source
  else
    match resolver reference.resource with
    | .error fault => .error (.fatal fault.message)
    | .ok bytes =>
      match Document.parseBytes bytes with
      | .error fault =>
        .error (.fatal ("Malformed XML in " ++ reference.resource ++ ": " ++ fault.message))
      | .ok doc => .ok ⟨doc, reference.resource⟩

/-- The element of a source that a reference leads to. -/
def findTarget (source : Source) (reference : Reference) : Except Diagnostic NodeId :=
  match reference.fragment with
  | some fragment =>
    match findById? source.doc fragment with
    | some id => .ok id
    | none =>
      .error (.error ("No element with id '" ++ fragment ++ "' in " ++ source.resource))
  | none =>
    match source.doc.documentElement? with
    | some id => .ok id
    | none => .error (.error (source.resource ++ " has no document element"))

/-! ## Expansion -/

/-- The trees that a reference stands for before they are expanded themselves. -/
def spliced (splice : Splice) (doc : Document) (target : NodeId) : List Tree :=
  match splice with
  | .element => (doc.scopedTree? target).toList
  | .content => doc.scopedChildren target

/-- The warning about an included element that is none of a schema. -/
def foreignWarning? (splice : Splice) (resource : String) (source : Source) (target : NodeId) :
    Option String :=
  match splice with
  | .content => none
  | .element =>
    match source.doc.tree? target with
    | some tree =>
      if tree.schemaName?.isSome then none
      else some (resource ++ " includes <" ++ tree.name?.elim "" (·.written) ++ "> from " ++
        source.resource ++ ", which is not a Schematron element")
    | none => none

/-- The expansion of a reference, with as many as `depth` references still to be opened below
those of the chain. -/
def refer (resolver : Resolver) (options : InclusionOptions) :
    (depth : Nat) → (chain : List String) → Source → Splice → Tree → StageRun (List Tree)
  | 0, chain, source, _, tree => do
    let reference ← .ofExcept (readReference chain source.resource tree)
    throw (.diagnostic (.fatal ("Inclusions nested deeper than " ++ toString options.maxDepth ++
      " levels at " ++ reference.key)))
  | depth + 1, chain, source, splice, tree => do
    let reference ← .ofExcept (readReference chain source.resource tree)
    let opened ← .ofExcept (openSource resolver source reference)
    let target ← .ofExcept (findTarget opened reference)
    match foreignWarning? splice source.resource opened target with
    | some message => StageRun.warn message
    | none => pure ()
    replaceAll (refer resolver options depth (chain ++ [reference.key]) opened)
      (spliced splice opened.doc target)

end Inclusion

/-- Expands every reference that is reached from a schema, which was read from a resource. -/
def expandInclusions (resolver : Resolver) (options : InclusionOptions) (resource : String)
    (schema : Document) : StageRun Document := do
  let trees ← Inclusion.replaceAll
    (Inclusion.refer resolver options options.maxDepth [resource] ⟨schema, resource⟩)
    (schema.scopedChildren Document.rootNode)
  pure (Document.ofForest trees)

end Schematron.Schema
