import Schematron.Resource.Volume
import Schematron.Schema.Compilation
import Schematron.Settings.Layer
import Schematron.Toml.Writer
import Schematron.Validation.Validator

/-!
# Settings of the service

What can be set for a validation service: the schema and the policy of its validator, where
resources are found, and how schemas are compiled. A setting that is not there has its default;
unknown settings do not count. The settings can be saved as a TOML text.
-/

namespace Schematron.Settings

open Resource (Resolver Volume)
open Schema (CompilerOptions)
open Toml (Value)
open Validation (Priority Validator)

variable [Regex.Engine]

/-- The settings of a service. -/
structure ServiceSettings where
  schema : Option String := none
  suppressWarnings : Bool := false
  priority : Int := Priority.default.value
  root : String := "."
  builtinPrograms : Bool := true
  compiler : CompilerOptions := {}
  deriving DecidableEq, Repr, Inhabited

namespace ServiceSettings

/-! ## Reading -/

/-- The sections of the settings with their keys. -/
def sections : List (String × List String) :=
  [("validator", ["schema", "suppress_warnings", "priority"]),
    ("resources", ["root", "builtin_programs"]),
    ("compiler", ["phase", "include_program", "abstract_program", "skeleton_program"])]

/-- The values of a section in the order of its keys. A section can also be an array of them, of
which those beyond the keys do not count. -/
def section? (keys : List String) : Option Value → Option (List (Option Value))
  | none => some (keys.map fun _ => none)
  | some (.array items) => Value.fields? keys (.array (items.take keys.length))
  | some v => v.fields? keys

/-- A setting with the default it has when it is not set. -/
def settingOr {α : Type} (default : α) (read? : Value → Option α) : Option Value → Option α
  | some v => read? v
  | none => some default

/-- The settings in a table, if each has a value of its type. -/
def ofTable? (table : Table) : Option ServiceSettings := do
  let defaults : ServiceSettings := {}
  match ← sections.mapM fun (name, keys) => section? keys (table.lookup name) with
  | [[schema, suppressWarnings, priority], [root, builtinPrograms],
      [phase, inclusion, abstraction, skeleton]] =>
    some
      { schema := ← settingOr none (fun v => (text? v).map some) schema
        suppressWarnings := ← settingOr defaults.suppressWarnings switch? suppressWarnings
        priority := ← settingOr defaults.priority smallInteger? priority
        root := ← settingOr defaults.root text? root
        builtinPrograms := ← settingOr defaults.builtinPrograms switch? builtinPrograms
        compiler :=
          { inclusionProgram := ← settingOr defaults.compiler.inclusionProgram text? inclusion
            abstractionProgram :=
              ← settingOr defaults.compiler.abstractionProgram text? abstraction
            skeletonProgram := ← settingOr defaults.compiler.skeletonProgram text? skeleton
            phase := ← settingOr none (fun v => (text? v).map some) phase } }
  | _ => none

/-! ## Saving -/

open Toml.Writer (Scalar) in
/-- The text that the settings are saved as. -/
def toToml (s : ServiceSettings) : String :=
  String.intercalate "\n"
    [Toml.Writer.table "validator"
      [("schema", s.schema.map .string),
        ("suppress_warnings", some (.boolean s.suppressWarnings)),
        ("priority", some (.integer s.priority))],
    Toml.Writer.table "resources"
      [("root", some (.string s.root)), ("builtin_programs", some (.boolean s.builtinPrograms))],
    Toml.Writer.table "compiler"
      [("phase", s.compiler.phase.map .string),
        ("include_program", some (.string s.compiler.inclusionProgram)),
        ("abstract_program", some (.string s.compiler.abstractionProgram)),
        ("skeleton_program", some (.string s.compiler.skeletonProgram))]]

/-! ## Use -/

/-- The settings of a validator. -/
def validatorSettings (s : ServiceSettings) : Validation.Settings :=
  { suppressWarnings := some s.suppressWarnings, priority := some s.priority }

/-- The resources below the root, with the bundled programs behind them if they are asked for. -/
def resolver (s : ServiceSettings) (volume : Volume) : Resolver :=
  if s.builtinPrograms then (volume.resolver s.root).withBundle
  else .chain [volume.resolver s.root]

/-- Why there is no validator for some settings. -/
inductive ServiceFault where
  | schemaNotSet
  | compilation (cause : Schema.CompileFault)
  deriving DecidableEq, Repr

namespace ServiceFault

def message : ServiceFault → String
  | schemaNotSet => "configuration property \"validator.schema\" not found"
  | compilation cause => cause.message

end ServiceFault

/-- Fetches and compiles a schema. -/
def compileSchema (s : ServiceSettings) (volume : Volume) (schema : String) :
    Except Schema.CompileFault (Schema.Program × List Schema.CompileWarning) := do
  let source ← Schema.SchemaSource.fetch (s.resolver volume) schema
  Schema.compile s.compiler (s.resolver volume) source

/-- The validator for the schema that is set. -/
def validator (s : ServiceSettings) (volume : Volume) : Except ServiceFault Validator :=
  match s.schema with
  | none => .error .schemaNotSet
  | some schema =>
    match s.compileSchema volume schema with
    | .ok (program, _) => .ok ((Validator.ofProgram program).applySettings s.validatorSettings)
    | .error cause => .error (.compilation cause)

end ServiceSettings

end Schematron.Settings
