/-!
# Invocations

The arguments of a command: options that hold for every action, the action, and the options and
operands of the action. An option is given at most once. Its value follows it, or stands in the
same argument: directly after a short name, or after an equals sign.
-/

namespace Schematron.Command

/-- The form of the report about documents. -/
inductive Format where
  | text | json
  deriving DecidableEq, Repr, Inhabited

/-- What a command is to do. -/
inductive Action where
  | compile
  | validate (paths : List String) (suppressWarnings : Bool) (format : Format)
  | svrl (path : String)
  deriving DecidableEq, Repr, Inhabited

/-- An action with the options that hold for every action. -/
structure Invocation where
  config : Option String
  schema : Option String
  root : Option String
  phase : Option String
  action : Action
  deriving DecidableEq, Repr, Inhabited

namespace Invocation

/-! ## Options -/

/-- An option: its short and long names, and whether a value belongs to it. -/
structure OptionName where
  short : Option Char
  long : String
  takesValue : Bool
  deriving DecidableEq, Repr

/-- The options that come before the action. -/
def commonOptions : List OptionName :=
  [⟨some 'c', "config", true⟩, ⟨some 's', "schema", true⟩, ⟨some 'r', "root", true⟩,
    ⟨some 'p', "phase", true⟩]

/-- The options of validation. -/
def validateOptions : List OptionName :=
  [⟨none, "suppress-warnings", false⟩, ⟨some 'f', "format", true⟩]

/-- An argument that is not an option: it does not begin with a hyphen, or is nothing else. -/
def isOperand (argument : String) : Bool := !argument.startsWith "-" || argument == "-"

/-- The name before an equals sign, and the value after it if there is one. -/
def cutEquals (cs : List Char) : String × Option String :=
  match cs.span (· != '=') with
  | (name, _ :: value) => (String.ofList name, some (String.ofList value))
  | (name, []) => (String.ofList name, none)

/-- The option that an argument begins, with a value that stands in the same argument. -/
def readOption? (options : List OptionName) (argument : String) :
    Option (OptionName × Option String) :=
  match argument.toList with
  | '-' :: '-' :: cs =>
    let (name, value) := cutEquals cs
    (options.find? (·.long == name)).map (·, value)
  | '-' :: c :: cs =>
    let value :=
      match cs with
      | [] => none
      | '=' :: cs => some (String.ofList cs)
      | cs => some (String.ofList cs)
    (options.find? (·.short == some c)).map (·, value)
  | _ => none

/-- The options that are given, each with its value; a switch has an empty one. -/
abbrev Given := List (OptionName × String)

/-- One more option is given, unless it is there already. -/
def add? (given : Given) (option : OptionName) (value : String) : Option Given :=
  if given.any (·.1 == option) then none else some ((option, value) :: given)

/-- The value of an option that is given. -/
def valueOf? (given : Given) (long : String) : Option String :=
  (given.find? (·.1.long == long)).map (·.2)

/-- Reads the options and operands of a list of arguments. After `--` all arguments are operands;
with `leading`, reading stops at the first operand, and the rest is left. -/
def readArguments (options : List OptionName) (leading : Bool) (given : Given) :
    List String → Option (Given × List String)
  | [] => some (given, [])
  | argument :: rest =>
    if argument == "--" then if leading then none else some (given, rest)
    else if isOperand argument then
      if leading then some (given, argument :: rest)
      else (readArguments options leading given rest).map fun (given, operands) =>
        (given, argument :: operands)
    else
      match readOption? options argument with
      | none => none
      | some (option, attached) =>
        if option.takesValue then
          match attached with
          | some value => (add? given option value).bind (readArguments options leading · rest)
          | none =>
            match rest with
            | [] => none
            | value :: rest =>
              if isOperand value then
                (add? given option value).bind (readArguments options leading · rest)
              else none
        else
          match attached with
          | some _ => none
          | none => (add? given option "").bind (readArguments options leading · rest)

/-! ## Actions -/

/-- The format of a name. -/
def format? (name : String) : Option Format :=
  if name == "text" then some .text else if name == "json" then some .json else none

/-- Reads an action. Paths are not empty. -/
def readAction? (name : String) (arguments : List String) : Option Action := do
  if name == "compile" then
    match ← readArguments [] false [] arguments with
    | (_, []) => some .compile
    | _ => none
  else if name == "validate" then
    let (given, paths) ← readArguments validateOptions false [] arguments
    if paths.isEmpty || paths.any (·.isEmpty) then none
    else
      let format ← format? ((valueOf? given "format").getD "text")
      some (.validate paths (valueOf? given "suppress-warnings").isSome format)
  else if name == "svrl" then
    match ← readArguments [] false [] arguments with
    | (_, [path]) => if path.isEmpty then none else some (.svrl path)
    | _ => none
  else none

/-- Reads the arguments of a command. -/
def read? (arguments : List String) : Option Invocation := do
  match ← readArguments commonOptions true [] arguments with
  | (_, []) => none
  | (given, name :: rest) =>
    if valueOf? given "root" == some "" then none
    else
      let action ← readAction? name rest
      some
        { config := valueOf? given "config", schema := valueOf? given "schema"
          root := valueOf? given "root", phase := valueOf? given "phase", action }

end Invocation

end Schematron.Command
