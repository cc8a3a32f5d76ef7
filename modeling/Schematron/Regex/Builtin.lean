import Schematron.Regex.Engine
import Schematron.Regex.Reader
import Schematron.Regex.Replacement

/-!
# The engine of the program

The engine that reads patterns, compiles them to programs and searches with these. It gives up a
pattern whose repetitions make its program too large. Of a pattern that it cannot read it says no
more than this.
-/

namespace Schematron.Regex

/-- The flags that hold at the beginning of a pattern. -/
def Options.flags (options : Options) : Flags :=
  { ignoreCase := options.ignoreCase, dotAll := options.dotAll, multiLine := options.multiLine,
    extended := options.extended }

/-- The program of an expression as it is used. -/
def Expression.matcher (e : Expression) : Matcher :=
  let program := e.program
  ⟨program.isMatch, program.replaceAll⟩

instance builtin : Engine where
  build options pattern :=
    match Expression.read? options.flags pattern with
    | some e =>
      if e.pattern.codeSize < Pattern.codeBound then .ok e.matcher
      else .error "Compiled regex exceeds size limit of 10485760 bytes."
    | none => .error "regex parse error:"

end Schematron.Regex
