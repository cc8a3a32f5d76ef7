import Schematron.Proofs.Schema.BareAbstraction
import Schematron.Proofs.Schema.BareInclusion
import Schematron.Proofs.Schema.BareSkeleton
import Schematron.Proofs.Schema.NoProgram
import Schematron.Proofs.Validation.Scope
import Schematron.Regex.Builtin

/-!
# Comments in schemas

A schema is compiled as it is without comments (`compile_deletesComments`): whatever comments are
deleted from it and from the resources that it is compiled with, the fault is the same, or the
warnings are the same and so is the program, but for the digest of the schema.

Each stage takes documents that differ in comments to results that differ in comments at most, and
the program of a stage is never a document, so no stage program has comments of this kind.
-/

namespace Schematron.Schema

open Xml (Document)
open Xml.Document (DeletesComments SameDocument)
open Resource (Resolver)

/-- The second resolver finds at each path what the first one finds, or, where this is a document,
the document without some of its comments. -/
def DeletesCommentsIn (resolver resolver' : Resolver) : Prop :=
  ∀ path, resolver' path = resolver path ∨
    ∃ bytes bytes', resolver path = .ok bytes ∧ resolver' path = .ok bytes' ∧
      DeletesComments bytes bytes' ∧ ∃ doc, Document.parseBytes bytes = .ok doc

section

variable {resolver resolver' : Resolver}

theorem corresponds_parseBytes (bytes : ByteArray) :
    Corresponds SameDocument (Document.parseBytes bytes) (Document.parseBytes bytes) := by
  cases hdoc : Document.parseBytes bytes with
  | error cause => exact .fault cause
  | ok doc => exact .result (Document.sameDocument_of_parseBytes hdoc)

theorem DeletesCommentsIn.sameResources (h : DeletesCommentsIn resolver resolver') :
    SameResources resolver resolver' := by
  intro path
  rcases h path with heq | ⟨bytes, bytes', hbytes, hbytes', hdelete, doc, hdoc⟩
  · rw [heq]
    cases resolver path with
    | error missing => exact .fault missing
    | ok bytes => exact .result (corresponds_parseBytes bytes)
  · obtain ⟨doc', hdoc', hsame⟩ := Document.parseBytes_of_deletesComments hdelete hdoc
    rw [hbytes, hbytes']
    refine .result ?_
    rw [hdoc, hdoc']
    exact .result hsame

/-- A stage program is not found where comments are deleted. -/
theorem DeletesCommentsIn.fetch_eq (h : DeletesCommentsIn resolver resolver') (path : String) :
    StageProgram.fetch resolver' path = StageProgram.fetch resolver path := by
  rw [StageProgram.fetch, StageProgram.fetch]
  rcases h path with heq | ⟨bytes, bytes', hbytes, hbytes', hdelete, doc, hdoc⟩
  · rw [heq]
  · obtain ⟨doc', hdoc', -⟩ := Document.parseBytes_of_deletesComments hdelete hdoc
    rw [hbytes, hbytes']
    dsimp only
    rw [StageProgram.read_of_parseBytes hdoc, StageProgram.read_of_parseBytes hdoc']

end

/-! ## Stages -/

/-- Related results with the same warnings. -/
def SameWarnings {α : Type} (R : α → α → Prop) (x y : α × List CompileWarning) : Prop :=
  R x.1 y.1 ∧ x.2 = y.2

theorem runStage_together {α : Type} {R : α → α → Prop} {run run' : StageRun α}
    (h : Together Eq R run run') (resource : String) (stage : Stage) :
    Corresponds (SameWarnings R) (runStage resource stage run) (runStage resource stage run') := by
  have hrun := h {} {} rfl
  rw [runStage, runStage]
  revert hrun
  generalize StateT.run run {} = result
  generalize StateT.run run' {} = result'
  intro hrun
  cases hrun with
  | fault cause => exact .fault _
  | result hresult => exact .result ⟨hresult.1, by rw [hresult.2]⟩

section

variable {options : CompilerOptions} {resolver resolver' : Resolver} {schema schema' : Document}

theorem runInclusion_deletesComments (hresolver : DeletesCommentsIn resolver resolver')
    (resource : String) (hschema : SameDocument schema schema') :
    Corresponds (SameWarnings SameDocument) (runInclusion options resolver resource schema)
      (runInclusion options resolver' resource schema') := by
  rw [runInclusion, runInclusion, hresolver.fetch_eq]
  cases StageProgram.fetch resolver (options.programPath .inclusion) with
  | error fault => exact .fault fault
  | ok program =>
      cases program with
      | inclusion set =>
          exact runStage_together
            (expandInclusions_same hresolver.sameResources set resource hschema) _ _
      | _ => exact .fault _

theorem runAbstraction_deletesComments (hresolver : DeletesCommentsIn resolver resolver')
    (resource : String) (hschema : SameDocument schema schema') :
    Corresponds (SameWarnings SameDocument) (runAbstraction options resolver resource schema)
      (runAbstraction options resolver' resource schema') := by
  rw [runAbstraction, runAbstraction, hresolver.fetch_eq]
  cases StageProgram.fetch resolver (options.programPath .abstraction) with
  | error fault => exact .fault fault
  | ok program =>
      cases program with
      | abstraction set => exact runStage_together (expandAbstractions_same set hschema) _ _
      | _ => exact .fault _

/-- The programs are the same, but for the digest. -/
def SameButDigest (program program' : Program) : Prop :=
  { program with digest := program'.digest } = program'

theorem runSkeleton_deletesComments [Regex.Engine]
    (hresolver : DeletesCommentsIn resolver resolver') (resource : String)
    (content content' : ByteArray) (hschema : SameDocument schema schema') :
    Corresponds (SameWarnings SameButDigest)
      (runSkeleton options resolver ⟨resource, content⟩ schema)
      (runSkeleton options resolver' ⟨resource, content'⟩ schema') := by
  rw [runSkeleton, runSkeleton, hresolver.fetch_eq]
  cases StageProgram.fetch resolver (options.programPath .skeleton) with
  | error fault => exact .fault fault
  | ok program =>
      cases program with
      | skeleton set =>
          refine runStage_together (fun sink sink' hsink => ?_) _ _
          subst hsink
          rw [compileSkeleton_bare _ _ _ _ _ hschema.forest, StateT.run_map]
          cases StateT.run (compileSkeleton _ _ _ _ schema) sink with
          | error cause => exact .fault cause
          | ok result => exact .result ⟨rfl, rfl⟩
      | _ => exact .fault _

end

/-! ## Main result -/

theorem compile_deletesComments [Regex.Engine] (options : CompilerOptions)
    (resolver resolver' : Resolver) (resource : String) (content content' : ByteArray)
    (hresolver : DeletesCommentsIn resolver resolver')
    (hcontent : DeletesComments content content')
    (hread : ∃ doc, Document.parseBytes content = .ok doc) :
    Corresponds (SameWarnings SameButDigest) (compile options resolver ⟨resource, content⟩)
      (compile options resolver' ⟨resource, content'⟩) := by
  obtain ⟨doc, hdoc⟩ := hread
  obtain ⟨doc', hdoc', hsame⟩ := Document.parseBytes_of_deletesComments hcontent hdoc
  have hsource : SchemaSource.read ⟨resource, content⟩ = .ok doc := by
    rw [SchemaSource.read, hdoc]
  have hsource' : SchemaSource.read ⟨resource, content'⟩ = .ok doc' := by
    rw [SchemaSource.read, hdoc']
  rw [compile, compile, hsource, hsource']
  refine (runInclusion_deletesComments hresolver resource hsame).bind
    fun _ _ hincluded => ?_
  refine (runAbstraction_deletesComments hresolver resource hincluded.1).bind
    fun _ _ hconcrete => ?_
  refine (runSkeleton_deletesComments hresolver resource content content' hconcrete.1).bind
    fun _ _ hprogram => .result ⟨hprogram.1, ?_⟩
  show _ ++ _ = _ ++ _
  rw [hincluded.2, hconcrete.2, hprogram.2]

/-- A schema with a comment in its title, which includes a pattern. -/
def commentedSchema : String :=
  "<schema xmlns='http://purl.oclc.org/dsdl/schematron'><title>a" ++ "<!--" ++ "b" ++ "-->" ++
    "c</title><include href='i'/></schema>"

def plainSchema : String :=
  "<schema xmlns='http://purl.oclc.org/dsdl/schematron'><title>a" ++
    "c</title><include href='i'/></schema>"

/-- The pattern that is included, with a comment before it. -/
def commentedPattern : String :=
  "" ++ "<!--" ++ "d" ++ "-->" ++ "<pattern xmlns='http://purl.oclc.org/dsdl/schematron'/>"

def plainPattern : String := "" ++ "<pattern xmlns='http://purl.oclc.org/dsdl/schematron'/>"

/-- A resolver that has a text at one path, and stage programs at the others. -/
def resolverWith (path text : String) : Resolver := fun other =>
  if other == path then .ok text.toUTF8 else Validation.kindResolver other

theorem compile_deletesComments_title :
    (compile Validation.kindOptions (resolverWith "i" commentedPattern)
        ⟨"s", commentedSchema.toUTF8⟩).isOk = true ∧
      Corresponds (SameWarnings SameButDigest)
        (compile Validation.kindOptions (resolverWith "i" commentedPattern)
          ⟨"s", commentedSchema.toUTF8⟩)
        (compile Validation.kindOptions (resolverWith "i" plainPattern)
          ⟨"s", plainSchema.toUTF8⟩) := by
  have hread : (compile Validation.kindOptions (resolverWith "i" commentedPattern)
        ⟨"s", commentedSchema.toUTF8⟩).isOk = true ∧
      (Document.parseBytes commentedSchema.toUTF8).isOk = true ∧
      (Document.parseBytes commentedPattern.toUTF8).isOk = true := by
    decide +kernel
  have hschema : DeletesComments commentedSchema.toUTF8 plainSchema.toUTF8 :=
    .single (.delete _ ⟨_, _, rfl⟩ (by decide))
  have hpattern : DeletesComments commentedPattern.toUTF8 plainPattern.toUTF8 :=
    .single (.delete _ ⟨_, _, rfl⟩ (by decide))
  refine ⟨hread.1, compile_deletesComments _ _ _ _ _ _ (fun path => ?_) hschema
    (isOk_iff_exists.mp hread.2.1)⟩
  rw [resolverWith, resolverWith]
  split
  · exact .inr ⟨_, _, rfl, rfl, hpattern, isOk_iff_exists.mp hread.2.2⟩
  · exact .inl rfl

end Schematron.Schema
