import Schematron.Digest
import Schematron.Resource.Bundle
import Schematron.Schema.Abstraction
import Schematron.Schema.Inclusion
import Schematron.Schema.Skeleton

/-!
# Compilation

A schema is read, its inclusions and abstract patterns are expanded, and the result is compiled to
a program. Each stage is driven by a stage program that is fetched through the resolver the schema
was found with. Warnings are kept with the stage they came from; the first fault is the answer.
-/

namespace Schematron.Schema

open Xml (Document)
open Resource (FileFault ResolveFault Resolver normalizePath)

/-- The bytes of a schema and the normal path of the resource they are the content of. -/
structure SchemaSource where
  resource : String
  content : ByteArray

/-- What is set for a compilation: the paths of the stage programs, and a phase that takes the
place of the one in the program of the last stage. -/
structure CompilerOptions where
  inclusionProgram : String := Resource.Bundle.inclusionPath
  abstractionProgram : String := Resource.Bundle.abstractionPath
  skeletonProgram : String := Resource.Bundle.skeletonPath
  phase : Option String := none
  deriving DecidableEq, Repr, Inhabited

/-- The path of the program of a stage. -/
def CompilerOptions.programPath (options : CompilerOptions) : Stage → String
  | .inclusion => options.inclusionProgram
  | .abstraction => options.abstractionProgram
  | .skeleton => options.skeletonProgram

/-- Why a schema cannot be compiled. -/
inductive CompileFault where
  | notFound (path : String)
  | unreadable (resource path : String) (cause : FileFault)
  | invalidProgram (path : String) (cause : StageProgram.ReadFault)
  | wrongProgram (path : String) (needed found : Stage)
  | malformed (resource : String) (cause : Xml.Fault)
  | stage (resource : String) (stage : Stage) (cause : StageFault)
  deriving DecidableEq, Repr

namespace CompileFault

/-- The fault of a compilation that needs a resource and does not get it. -/
def ofResolve (resource : String) : ResolveFault → CompileFault
  | .notFound path => notFound path
  | .unreadable path cause => unreadable resource path cause

def message : CompileFault → String
  | notFound path => (ResolveFault.notFound path).message
  | unreadable resource path cause =>
    "Could not resolve " ++ resource ++ ": " ++ (ResolveFault.unreadable path cause).message
  | invalidProgram path .notUtf8 => "Invalid preprocessor program " ++ path ++ ": not valid UTF-8"
  | invalidProgram path .malformed => "Invalid preprocessor program " ++ path
  | wrongProgram path needed found =>
    "Preprocessor program " ++ path ++ " is a " ++ found.programKind ++ " program, stage " ++
      needed.display ++ " needs " ++ needed.programKind
  | malformed resource cause => "Malformed XML in " ++ resource ++ ": " ++ cause.message
  | .stage resource run (.diagnostic d) =>
    d.severity.display ++ " during " ++ run.display ++ " of " ++ resource ++ ": " ++ d.message
  | .stage resource run .endless =>
    Severity.fatal.display ++ " during " ++ run.display ++ " of " ++ resource ++
      ": Abstract patterns instantiate each other without end"

end CompileFault

/-- A warning with the stage that it came from. -/
structure CompileWarning where
  stage : Stage
  message : String
  deriving DecidableEq, Repr, Inhabited

def CompileWarning.display (warning : CompileWarning) : String :=
  "[" ++ warning.stage.display ++ "] " ++ warning.message

namespace SchemaSource

/-- The source of the given content. -/
def ofContent (path : String) (content : ByteArray) : SchemaSource :=
  ⟨normalizePath path, content⟩

/-- Fetches the source at a path. -/
def fetch (resolver : Resolver) (path : String) : Except CompileFault SchemaSource :=
  match resolver path with
  | .ok content => .ok (ofContent path content)
  | .error fault => .error (.ofResolve path fault)

/-- The digest of the content. -/
def digest (source : SchemaSource) : String := Digest.ofBytes source.content

/-- Reads the content. -/
def read (source : SchemaSource) : Except CompileFault Document :=
  match Document.parseBytes source.content with
  | .ok doc => .ok doc
  | .error cause => .error (.malformed source.resource cause)

end SchemaSource

/-- Fetches and reads the program at a path. -/
def StageProgram.fetch (resolver : Resolver) (path : String) : Except CompileFault StageProgram :=
  match resolver path with
  | .error fault => .error (.ofResolve path fault)
  | .ok bytes =>
    match read bytes with
    | .ok program => .ok program
    | .error cause => .error (.invalidProgram path cause)

/-- Runs a stage on the schema of a resource. -/
def runStage {α : Type} (resource : String) (stage : Stage) (run : StageRun α) :
    Except CompileFault (α × List CompileWarning) :=
  match StateT.run run {} with
  | .ok (result, sink) => .ok (result, sink.warnings.map (CompileWarning.mk stage))
  | .error cause => .error (.stage resource stage cause)

/-! ## Compiling -/

section

variable (options : CompilerOptions) (resolver : Resolver)

/-- What a stage answers whose program turns out to be one of another stage. -/
def wrongProgram {α : Type} (needed : Stage) (found : StageProgram) : Except CompileFault α :=
  .error (.wrongProgram (options.programPath needed) needed found.stage)

/-- Expands the references of the schema of a resource. -/
def runInclusion (resource : String) (schema : Document) :
    Except CompileFault (Document × List CompileWarning) := do
  match ← StageProgram.fetch resolver (options.programPath .inclusion) with
  | .inclusion set => runStage resource .inclusion (expandInclusions resolver set resource schema)
  | other => wrongProgram options .inclusion other

/-- Expands the abstract patterns of the schema of a resource. -/
def runAbstraction (resource : String) (schema : Document) :
    Except CompileFault (Document × List CompileWarning) := do
  match ← StageProgram.fetch resolver (options.programPath .abstraction) with
  | .abstraction set => runStage resource .abstraction (expandAbstractions set schema)
  | other => wrongProgram options .abstraction other

variable [Regex.Engine]

/-- Compiles the schema that is left of a source. -/
def runSkeleton (source : SchemaSource) (schema : Document) :
    Except CompileFault (Program × List CompileWarning) := do
  match ← StageProgram.fetch resolver (options.programPath .skeleton) with
  | .skeleton set =>
    runStage source.resource .skeleton
      (compileSkeleton set options.phase source.resource source.digest schema)
  | other => wrongProgram options .skeleton other

/-- Compiles a schema to a program, with the warnings of all stages in order. -/
def compile (source : SchemaSource) : Except CompileFault (Program × List CompileWarning) := do
  let schema ← source.read
  let (included, inclusionWarnings) ← runInclusion options resolver source.resource schema
  let (concrete, abstractionWarnings) ← runAbstraction options resolver source.resource included
  let (program, skeletonWarnings) ← runSkeleton options resolver source concrete
  .ok (program, inclusionWarnings ++ abstractionWarnings ++ skeletonWarnings)

end

end Schematron.Schema
