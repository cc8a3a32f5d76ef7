import Schematron.Command.Invocation
import Schematron.Command.Json
import Schematron.Settings.Loading

/-!
# Executing commands

An invocation is carried out on the files of a volume. The outcome is what is written, and whether
everything was in order. A fault is shown with the faults that caused it, the outermost first.
-/

namespace Schematron.Command

open Resource (FileFault FileTree ResolveFault Volume)
open Schema (CompileFault CompileWarning Program)
open Settings (ServiceSettings)
open Validation (BatchReport Finding Report RunFault ValidationFault Validator)

/-- What a command leaves: its exit code, and the texts of its output and error streams. -/
structure Outcome where
  exitCode : UInt32
  output : String
  errors : String
  deriving DecidableEq, Repr, Inhabited

namespace Outcome

/-- The exit code of a command that could be carried out. -/
def codeOf (allWell : Bool) : UInt32 := if allWell then 0 else 1

/-- Lines of output, and whether everything was in order. -/
def done (allWell : Bool) (lines : List String) : Outcome :=
  ⟨codeOf allWell, String.join (lines.map (· ++ "\n")), ""⟩

/-- A fault with its causes. -/
def failed (messages : List String) : Outcome :=
  ⟨1, "", "Error: " ++ String.intercalate ": " messages ++ "\n"⟩

/-- The arguments of the command mean nothing. -/
def misused : Outcome := ⟨2, "", "Error: the arguments are not understood\n"⟩

end Outcome

/-! ## Faults with their causes -/

/-- The messages of a fault of a compilation and of its causes. -/
def compileMessages (fault : CompileFault) : List String :=
  match fault with
  | .unreadable _ path cause =>
    [fault.message, (ResolveFault.unreadable path cause).message, cause.message]
  | .malformed _ cause => [fault.message, cause.message]
  | _ => [fault.message]

/-- The messages of a fault of a run and of its cause. -/
def runMessages (fault : RunFault) : List String :=
  match fault with
  | .malformed cause => [fault.message, cause.message]
  | .evaluation _ cause => [fault.message, cause.message]

/-- The messages of the reason why there is no validator. -/
def serviceMessages (fault : ServiceSettings.ServiceFault) : List String :=
  match fault with
  | .schemaNotSet => [fault.message]
  | .compilation cause => compileMessages cause

/-- The messages about a file that cannot be read. -/
def readMessages (path : String) (fault : FileFault) : List String :=
  ["Failed to read " ++ path, fault.message]

/-! ## Compilation -/

/-- A line below another one. -/
def branch (text : String) : String := "   └─ " ++ text

/-- The lines about the warnings of a compilation. -/
def warningLines (warnings : List CompileWarning) : List String :=
  if warnings.isEmpty then []
  else
    ["", "⚠️  " ++ toString warnings.length ++ " warning(s):"] ++
      warnings.map fun warning => branch warning.display

/-- The lines about a compiled schema. -/
def programLines (program : Program) : List String :=
  ["✅ Compiled " ++ program.resource ++ " (" ++ Digest.short program.digest ++ ")",
    "   " ++ toString program.patterns.length ++ " pattern(s), " ++
      toString program.rules.length ++ " rule(s), " ++
      toString program.assertions.length ++ " assertion(s)"] ++
    (program.phase.map ("   phase: " ++ ·)).toList

variable [Regex.Engine]

/-- Compiles the schema that is set. -/
def compile (settings : ServiceSettings) (volume : Volume) : Outcome :=
  match settings.schema with
  | none => .failed ["No schema given; pass --schema or set validator.schema"]
  | some schema =>
    match settings.compileSchema volume schema with
    | .ok (program, warnings) => .done true (programLines program ++ warningLines warnings)
    | .error cause => .failed (compileMessages cause)

/-! ## Validation -/

/-- A document with the path it was read from. -/
structure Input where
  path : String
  content : ByteArray

/-- The documents at a path: the file there, or the XML documents in the folder there. -/
def inputsAt (volume : Volume) (path : String) : Except (List String) (List Input) :=
  let input (path : String) : Except FileFault ByteArray → Except (List String) Input
    | .ok content => .ok ⟨path, content⟩
    | .error fault => .error (readMessages path fault)
  match volume.look path with
  | .ok (.folder entries) =>
    (FileTree.xmlFiles path (.folder entries)).mapM fun (path, content) => input path content
  | .ok (.file content) => do .ok [← input path content]
  | .error fault => .error (readMessages path fault)

/-- The lines about a document. -/
def entryLines (path : String) : Except ValidationFault Report → List String
  | .ok report =>
    ("✅ " ++ path) :: report.warnings.map fun finding => branch ("warning: " ++ finding.message)
  | .error (.refused refusal) =>
    ("❌ " ++ path) :: (refusal.errors.map fun message => branch ("error: " ++ message)) ++
      refusal.warnings.map fun message => branch ("warning: " ++ message)
  | .error fault => ["❌ " ++ path ++ " - " ++ fault.message]

/-- The last line about a batch. -/
def summary (batch : BatchReport) : String :=
  let count := toString batch.entries.length
  if batch.isValid then "✅ " ++ count ++ " document(s) valid"
  else "❌ " ++ toString batch.failures.length ++ " of " ++ count ++ " document(s) failed"

/-- A finding in a machine-readable report. -/
def findingJson (finding : Finding) : Json :=
  let optional (key : String) (value : Option String) : List (String × Json) :=
    (value.map fun text => (key, Json.string text)).toList
  .object
    ([("severity", .string finding.channel.flag), ("kind", .string finding.kind.schemaElement),
      ("message", .string finding.message), ("location", .string finding.location),
      ("test", .string finding.test)] ++
      optional "id" finding.id ++ optional "role" finding.role ++
      if finding.diagnostics.isEmpty then []
      else [("diagnostics", .strings finding.diagnostics)])

/-- A report in a machine-readable one. -/
def reportJson (report : Report) : Json :=
  .object
    [("errors", .array (report.errors.map findingJson)),
      ("warnings", .array (report.warnings.map findingJson)),
      ("suppress_warnings", .boolean report.suppressWarnings)]

/-- What is said about a document in a machine-readable report. -/
def outcomeEntries : Except ValidationFault Report → List (String × Json)
  | .ok report => [("valid", .boolean true), ("report", reportJson report)]
  | .error (.refused refusal) =>
    [("valid", .boolean false), ("errors", .strings refusal.errors),
      ("warnings", .strings refusal.warnings)]
  | .error fault => [("valid", .boolean false), ("error", .string fault.message)]

/-- The machine-readable report about a batch, made at a time. -/
def batchJson (time : String) (validator : Validator) (inputs : List Input)
    (batch : BatchReport) : Json :=
  .object
    [("generated_at", .string time), ("schema_id", .string validator.program.resource),
      ("schema_digest", .string validator.program.digest),
      ("suppress_warnings", .boolean validator.suppressWarnings),
      ("valid", .boolean batch.isValid),
      ("documents", .array ((inputs.zip batch.entries).map fun (input, entry) =>
        .object ([("entry", .natural entry.entry), ("path", .string input.path)] ++
          outcomeEntries entry.outcome)))]

/-- Validates documents. -/
def validateInputs (time : String) (format : Format) (validator : Validator)
    (inputs : List Input) : Outcome :=
  let (batch, _) := Validator.validateBatch (inputs.map (·.content)) validator
  let lines :=
    match format with
    | .text =>
      ((inputs.zip batch.entries).flatMap fun (input, entry) =>
        entryLines input.path entry.outcome) ++ ["", summary batch]
    | .json => [(batchJson time validator inputs batch).write]
  .done batch.isValid lines

/-- Validates the documents at paths with the schema that is set. -/
def validate (settings : ServiceSettings) (volume : Volume) (time : String)
    (paths : List String) (suppressWarnings : Bool) (format : Format) : Outcome :=
  match settings.validator volume with
  | .error cause => .failed (serviceMessages cause)
  | .ok validator =>
    let validator := if suppressWarnings then validator.setSuppressWarnings true else validator
    match paths.mapM (inputsAt volume) with
    | .error messages => .failed messages
    | .ok inputs =>
      if inputs.flatten.isEmpty then .failed ["No documents to validate"]
      else validateInputs time format validator inputs.flatten

/-- Writes the report about the document at a path in the report language. -/
def svrl (settings : ServiceSettings) (volume : Volume) (path : String) : Outcome :=
  match settings.validator volume with
  | .error cause => .failed (serviceMessages cause)
  | .ok validator =>
    match volume.read path with
    | .error fault => .failed (readMessages path fault)
    | .ok content =>
      match validator.reportOn content with
      | .ok report => .done true [report.svrl]
      | .error fault => .failed (runMessages fault)

/-! ## Commands -/

/-- The settings with those that an invocation gives. -/
def Invocation.override (invocation : Invocation) (settings : ServiceSettings) :
    ServiceSettings :=
  { settings with
    schema := invocation.schema <|> settings.schema
    root := invocation.root.getD settings.root
    compiler :=
      { settings.compiler with phase := invocation.phase <|> settings.compiler.phase } }

/-- Carries out an invocation. -/
def Invocation.execute (invocation : Invocation) (volume : Volume)
    (environment : List (String × String)) (time : String) : Outcome :=
  match ServiceSettings.load volume environment invocation.config with
  | .error fault => .failed ["Failed to load configuration", fault.message]
  | .ok settings =>
    let settings := invocation.override settings
    match invocation.action with
    | .compile => compile settings volume
    | .validate paths suppressWarnings format =>
      validate settings volume time paths suppressWarnings format
    | .svrl path => svrl settings volume path

/-- Carries out a command with the given arguments. -/
def execute (arguments : List String) (volume : Volume) (environment : List (String × String))
    (time : String) : Outcome :=
  match Invocation.read? arguments with
  | some invocation => invocation.execute volume environment time
  | none => .misused

end Schematron.Command
