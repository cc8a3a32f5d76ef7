import Schematron.Regex.Engine
import Schematron.XPath.Fault

/-!
# Regular expressions in function calls

A call gives a pattern and a text of flags: `i` ignores case, `s` lets the point match line feeds,
`m` lets caret and dollar match at lines, and `x` ignores blanks in the pattern. The pattern is
left to the engine.
-/

namespace Schematron.XPath

/-- The options with the one that a flag stands for. -/
def withFlag? (options : Regex.Options) : (flag : Char) → Option Regex.Options
  | 'i' => some { options with ignoreCase := true }
  | 's' => some { options with dotAll := true }
  | 'm' => some { options with multiLine := true }
  | 'x' => some { options with extended := true }
  | _ => none

/-- The options of a text of flags. -/
def readFlags (flags : List Char) : Except RegexFault Regex.Options :=
  flags.foldlM (fun options flag =>
    match withFlag? options flag with
    | some options => .ok options
    | none => .error (.unknownFlag flag)) {}

/-- The regular expression of a pattern under flags. -/
def compileRegex [Regex.Engine] (pattern flags : String) : Except RegexFault Regex.Matcher := do
  let options ← readFlags flags.toList
  match Regex.Engine.build options pattern with
  | .ok matcher => .ok matcher
  | .error message => .error (.rejected message)

end Schematron.XPath
