import Schematron.Resource.Resolver

/-!
# The bundled stage programs

The texts of the programs for the three stages of compilation, one for each stage.
-/

namespace Schematron.Resource.Bundle

/-- The lines of the program for inclusion expansion. -/
def inclusionProgram : List String :=
  ["# ISO DSDL inclusion expansion.",
   "#",
   "# Replaces every sch:include (and every sch:extends carrying an href) with the",
   "# referenced element. References nest; a cycle or a chain deeper than",
   "# max_depth aborts the compilation.",
   "",
   "kind = \"inclusion-expander\"",
   "",
   "[options]",
   "max_depth = 16"]

/-- The lines of the program for the expansion of abstract patterns. -/
def abstractionProgram : List String :=
  ["# ISO Schematron abstract pattern expansion.",
   "#",
   "# Every pattern[@is-a] becomes a copy of the abstract pattern it names, with",
   "# $param references substituted in the listed attributes. Abstract patterns",
   "# are dropped from the output.",
   "",
   "kind = \"abstraction-expander\"",
   "",
   "[options]",
   "remove_abstract = true",
   "param_attributes = [\"context\", \"test\", \"select\", \"path\", \"value\", \"subject\"]"]

/-- The lines of the program for skeleton compilation. -/
def skeletonProgram : List String :=
  ["# ISO Schematron skeleton compilation to an SVRL-emitting check program.",
   "#",
   "# Severity marker: an assertion whose role (or, failing that, flag) is in",
   "# warning_roles reports as a warning, one in error_roles as an error.",
   "# Anything else takes the default for its kind.",
   "",
   "kind = \"skeleton-compiler\"",
   "",
   "[options]",
   "query_bindings = [\"xslt\", \"xslt2\", \"xslt3\", \"xpath\", \"xpath2\"]",
   "phase = \"#DEFAULT\"",
   "warning_roles = [\"warning\", \"warn\", \"info\", \"information\", \"advisory\"]",
   "error_roles = [\"error\", \"fatal\", \"mandatory\"]",
   "assert_default = \"error\"",
   "report_default = \"warning\""]

/-- The path of the program for inclusion expansion. -/
def inclusionPath : String := "iso-schematron/iso_dsdl_include.toml"

/-- The path of the program for the expansion of abstract patterns. -/
def abstractionPath : String := "iso-schematron/iso_abstract_expand.toml"

/-- The path of the program for skeleton compilation. -/
def skeletonPath : String := "iso-schematron/iso_svrl_for_xslt2.toml"

/-- The bytes of lines, each with a line feed after it. -/
def bytesOf (lines : List String) : ByteArray := (String.join (lines.map (· ++ "\n"))).toUTF8

/-- The bundled programs as resources. -/
def resolver : Resolver :=
  .ofFiles
    [(inclusionPath, bytesOf inclusionProgram), (abstractionPath, bytesOf abstractionProgram),
     (skeletonPath, bytesOf skeletonProgram)]

end Schematron.Resource.Bundle

namespace Schematron.Resource

/-- A resolver behind which the bundled programs stand. -/
def Resolver.withBundle (resolver : Resolver) : Resolver := .chain [resolver, Bundle.resolver]

end Schematron.Resource
