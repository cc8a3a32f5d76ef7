/-!
# Stages

A schema is compiled in three stages: the references to other resources are expanded, then the
abstract patterns, and what is left is compiled.
-/

namespace Schematron.Schema

/-- A stage of compilation, in the order in which they run. -/
inductive Stage where
  | inclusion | abstraction | skeleton
  deriving DecidableEq, Repr, Inhabited

namespace Stage

def display : Stage → String
  | inclusion => "inclusion expansion"
  | abstraction => "abstraction expansion"
  | skeleton => "skeleton compilation"

/-- The kind of programs that a stage runs. -/
def programKind : Stage → String
  | inclusion => "inclusion-expander"
  | abstraction => "abstraction-expander"
  | skeleton => "skeleton-compiler"

end Stage

end Schematron.Schema
