/-!
# Widths

Whole numbers that fit into a fixed number of bits.
-/

namespace Schematron.Numeric

/-- An integer fits into a number of bits, one of which is its sign. -/
def fitsSigned (bits : Nat) (n : Int) : Bool :=
  let half := Nat.pow 2 (bits - 1)
  n.toNat < half && (-n).toNat ≤ half

end Schematron.Numeric
