/-!
# Priorities

The priority of a validator among the checks of an ingest.
-/

namespace Schematron.Validation

/-- A priority from 1 to 100. -/
structure Priority where
  value : Int
  least : 1 ≤ value := by decide
  most : value ≤ 100 := by decide
  deriving DecidableEq, Repr

namespace Priority

/-- The priority of a validator for which none is set. -/
def default : Priority := ⟨100, by decide, by decide⟩

/-- The priority nearest to a number. -/
def clamp (n : Int) : Priority := ⟨max 1 (min n 100), by omega, by omega⟩

end Priority

instance : Inhabited Priority := ⟨.default⟩

end Schematron.Validation
