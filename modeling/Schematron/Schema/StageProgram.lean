import Schematron.Schema.Channel
import Schematron.Schema.Stage
import Schematron.Toml.Reader

/-!
# Stage programs

A stage is driven by a program: a TOML text that names the kind of the program, and with it the
stage, and that can set options. An option that is not set has its default; unknown keys do not
count.
-/

namespace Schematron.Schema

/-! ## Options -/

/-- The options of inclusion expansion: how many references may be open at once. -/
structure InclusionOptions where
  maxDepth : Nat := 16
  deriving DecidableEq, Repr, Inhabited

/-- The options of abstraction expansion: whether abstract patterns are left out of the result,
and the attributes in which references to parameters are replaced. -/
structure AbstractionOptions where
  removeAbstract : Bool := true
  paramAttributes : List String := ["context", "test", "select", "path", "value", "subject"]
  deriving DecidableEq, Repr, Inhabited

/-- The options of skeleton compilation: the accepted query bindings, the phase to compile, the
roles and flags that put an assertion on a channel, and the channels of all others. -/
structure SkeletonOptions where
  queryBindings : List String := ["xslt", "xslt2", "xslt3", "xpath", "xpath2"]
  phase : String := "#DEFAULT"
  warningRoles : List String := ["warning", "warn", "info", "information", "advisory"]
  errorRoles : List String := ["error", "fatal", "mandatory"]
  assertDefault : Channel := .error
  reportDefault : Channel := .warning
  deriving DecidableEq, Repr, Inhabited

/-- A program with its options. -/
inductive StageProgram where
  | inclusion (options : InclusionOptions)
  | abstraction (options : AbstractionOptions)
  | skeleton (options : SkeletonOptions)
  deriving DecidableEq, Repr, Inhabited

/-- The stage that a program drives. -/
def StageProgram.stage : StageProgram → Stage
  | inclusion _ => .inclusion
  | abstraction _ => .abstraction
  | skeleton _ => .skeleton

/-! ## Reading -/

/-- An option with the default it has when it is not set. -/
def settingOr {α : Type} (default : α) (read? : Toml.Value → Option α) :
    Option Toml.Value → Option α
  | some v => read? v
  | none => some default

/-- A channel is named by its flag, which can also be the only key of a table, over an empty
one. -/
def Channel.ofToml? (v : Toml.Value) : Option Channel :=
  match v with
  | .string flag | .table [(flag, .table [])] =>
    [Channel.error, .warning].find? fun channel => channel.flag == flag
  | _ => none

def InclusionOptions.ofToml? (v : Toml.Value) : Option InclusionOptions := do
  let defaults : InclusionOptions := {}
  match ← v.fields? ["max_depth"] with
  | [maxDepth] => some ⟨← settingOr defaults.maxDepth (·.natural?) maxDepth⟩
  | _ => none

def AbstractionOptions.ofToml? (v : Toml.Value) : Option AbstractionOptions := do
  let defaults : AbstractionOptions := {}
  match ← v.fields? ["remove_abstract", "param_attributes"] with
  | [removeAbstract, paramAttributes] =>
    some ⟨← settingOr defaults.removeAbstract (·.boolean?) removeAbstract,
      ← settingOr defaults.paramAttributes (·.strings?) paramAttributes⟩
  | _ => none

def SkeletonOptions.ofToml? (v : Toml.Value) : Option SkeletonOptions := do
  let defaults : SkeletonOptions := {}
  match ← v.fields? ["query_bindings", "phase", "warning_roles", "error_roles", "assert_default",
    "report_default"] with
  | [queryBindings, phase, warningRoles, errorRoles, assertDefault, reportDefault] =>
    some ⟨← settingOr defaults.queryBindings (·.strings?) queryBindings,
      ← settingOr defaults.phase (·.string?) phase,
      ← settingOr defaults.warningRoles (·.strings?) warningRoles,
      ← settingOr defaults.errorRoles (·.strings?) errorRoles,
      ← settingOr defaults.assertDefault Channel.ofToml? assertDefault,
      ← settingOr defaults.reportDefault Channel.ofToml? reportDefault⟩
  | _ => none

namespace StageProgram

/-- The program that a TOML document describes. -/
def ofToml? (v : Toml.Value) : Option StageProgram := do
  let kind ← (← v.get? "kind").string?
  let options := v.get? "options"
  if kind == Stage.inclusion.programKind then
    some (inclusion (← settingOr {} InclusionOptions.ofToml? options))
  else if kind == Stage.abstraction.programKind then
    some (abstraction (← settingOr {} AbstractionOptions.ofToml? options))
  else if kind == Stage.skeleton.programKind then
    some (skeleton (← settingOr {} SkeletonOptions.ofToml? options))
  else none

/-- Why bytes are no program. -/
inductive ReadFault where
  | notUtf8 | malformed
  deriving DecidableEq, Repr

/-- Reads the text of a program. -/
def read (bytes : ByteArray) : Except ReadFault StageProgram :=
  match String.fromUTF8? bytes with
  | none => .error .notUtf8
  | some text =>
    match (Toml.read text).bind ofToml? with
    | some program => .ok program
    | none => .error .malformed

end StageProgram

end Schematron.Schema
