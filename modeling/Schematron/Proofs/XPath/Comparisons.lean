import Mathlib.Logic.Basic
import Schematron.XPath.Value

/-!
# What comparisons mean

A comparison of two values is said here by one rule for all types (`Comparison.Means`): each value
is compared as one of its comparands, of which an atom has itself alone, a node-set beside a
boolean its own truth value, and a node-set beside anything else one for each of its nodes. Two
comparands are equal as booleans if one of them is a boolean, else as numbers if one is a number,
else as strings; they are ordered as numbers.

A comparison holds if it is meant, and the sides may be exchanged, with the one exception that of
an empty node-set and a boolean nothing holds (`Comparison.holds_iff`): the nodes are asked one
after the other, and there is none that could answer for the truth value `false` of the set.
-/

namespace Schematron.Numeric

open Float.Model

/-- Exchanging two doubles exchanges less and greater. -/
theorem compare_swap (x y : UnpackedFloat) : y.compare x = (x.compare y).map Ordering.swap := by
  have hsign (s t : UnpackedFloat.Sign) : compare t s = (compare s t).swap := by
    cases s <;> cases t <;> rfl
  have hsize (m n : Nat) (e f : Int) : (compare f e).then (compare n m) =
      ((compare e f).then (compare m n)).swap := by
    rw [Ordering.swap_then, Int.compare_swap, Nat.compare_swap]
  cases x with
  | notANumber => cases y <;> rfl
  | infinity s =>
      cases y with
      | notANumber => rfl
      | infinity t => exact congrArg some (hsign s t)
      | zero t => cases s <;> rfl
      | finite t n f h => cases s <;> rfl
  | zero s =>
      cases y with
      | notANumber => rfl
      | infinity t => cases t <;> rfl
      | zero t => rfl
      | finite t n f h => cases t <;> rfl
  | finite s m e h =>
      cases y with
      | notANumber => cases s <;> rfl
      | infinity t => cases t <;> cases s <;> rfl
      | zero t => cases s <;> rfl
      | finite t n f h' =>
          -- of two negative doubles the greater mantissa is the lesser one
          cases s <;> cases t
          · exact congrArg (fun order => some order.swap) (hsize m n e f)
          · rfl
          · rfl
          · exact congrArg some (hsize m n e f)

theorem float_beq_comm (a b : Float) : (a == b) = (b == a) := by
  have hbeq (x y : Float) : (x == y) = (x.toModel.unpack.compare y.toModel.unpack == some .eq) := rfl
  rw [hbeq, hbeq, compare_swap]
  cases b.toModel.unpack.compare a.toModel.unpack with
  | none => rfl
  | some order => cases order <;> rfl

end Schematron.Numeric

namespace Schematron.XPath

open Xml

variable {doc : Document}

namespace Value

theorem exists_nodes {v : Value} (h : v.type = .nodeSet) : ∃ ids, v = nodes ids := by
  cases v with
  | nodes ids => exact ⟨ids, rfl⟩
  | _ => cases h

/-- Two values that are no node-sets are equal. -/
def Equals (doc : Document) (a b : Value) : Prop :=
  if a.type = .boolean ∨ b.type = .boolean then a.toBool = b.toBool
  else if a.type = .number ∨ b.type = .number then (a.toNumber doc == b.toNumber doc) = true
  else a.toText doc = b.toText doc

theorem equals_comm (a b : Value) : a.Equals doc b ↔ b.Equals doc a := by
  simp only [Equals, or_comm (a := b.type = _), eq_comm (a := b.toBool), eq_comm (a := b.toText doc),
    Numeric.float_beq_comm (b.toNumber doc)]

/-- What a value is compared as beside a value of a type. -/
def comparands (doc : Document) (beside : ValueType) : Value → List Value
  | nodes ids =>
    match beside with
    | .boolean => [.boolean (nodes ids).toBool]
    | .number => ids.map fun id => .number (Number.parse (doc.stringValue id))
    | .string | .nodeSet => ids.map fun id => .string (doc.stringValue id)
  | v => [v]

/-- One of the values is the empty node-set and the other one a boolean. -/
def IsEmptyBesideBoolean (a b : Value) : Prop :=
  (a = nodes [] ∧ b.type = .boolean) ∨ (b = nodes [] ∧ a.type = .boolean)

theorem isEmptyBesideBoolean_comm (a b : Value) :
    a.IsEmptyBesideBoolean b ↔ b.IsEmptyBesideBoolean a := or_comm

end Value

namespace Comparison

/-- The comparison of the exchanged sides. -/
def converse : Comparison → Comparison
  | eq => eq
  | notEq => notEq
  | lt => gt
  | le => ge
  | gt => lt
  | ge => le

/-- What the comparison means of two values that are no node-sets. -/
def MeansOfAtoms (doc : Document) (a b : Value) : Comparison → Prop
  | eq => a.Equals doc b
  | notEq => ¬ a.Equals doc b
  | lt => a.toNumber doc < b.toNumber doc
  | le => a.toNumber doc ≤ b.toNumber doc
  | gt => a.toNumber doc > b.toNumber doc
  | ge => a.toNumber doc ≥ b.toNumber doc

/-- What the comparison means of two values: it holds of a comparand of the one and a comparand of
the other. -/
def Means (doc : Document) (comparison : Comparison) (a b : Value) : Prop :=
  ∃ x ∈ a.comparands doc b.type, ∃ y ∈ b.comparands doc a.type, comparison.MeansOfAtoms doc x y

theorem meansOfAtoms_converse (comparison : Comparison) (a b : Value) :
    comparison.converse.MeansOfAtoms doc b a ↔ comparison.MeansOfAtoms doc a b := by
  cases comparison with
  | eq => exact Value.equals_comm b a
  | notEq => exact not_congr (Value.equals_comm b a)
  | lt | le | gt | ge => exact Iff.rfl

/-- Exchanging the sides exchanges the comparison for its converse. -/
theorem means_converse (comparison : Comparison) (a b : Value) :
    comparison.converse.Means doc b a ↔ comparison.Means doc a b := by
  simp only [Means, meansOfAtoms_converse]
  constructor
  · rintro ⟨y, hy, x, hx, h⟩
    exact ⟨x, hx, y, hy, h⟩
  · rintro ⟨x, hx, y, hy, h⟩
    exact ⟨y, hy, x, hx, h⟩

/-! ## Atoms -/

theorem equal_iff (a b : Value) : equal doc a b = true ↔ a.Equals doc b := by
  cases a <;> cases b <;> simp [equal, Value.Equals, Value.type]

theorem ofAtoms_iff (comparison : Comparison) (a b : Value) :
    ofAtoms doc comparison a b = true ↔ comparison.MeansOfAtoms doc a b := by
  cases comparison with
  | eq => exact equal_iff a b
  | notEq => rw [ofAtoms, MeansOfAtoms, ← equal_iff, Bool.not_eq_true', Bool.not_eq_true]
  | lt | le | gt | ge => exact decide_eq_true_iff

theorem ofAtoms_converse (comparison : Comparison) (a b : Value) :
    ofAtoms doc comparison.converse b a = ofAtoms doc comparison a b := by
  rw [Bool.eq_iff_iff, ofAtoms_iff, ofAtoms_iff]
  exact meansOfAtoms_converse comparison a b

/-! ## Node-sets -/

/-- It does not matter on which side a node-set stands. -/
theorem holds_converse (comparison : Comparison) (a b : Value) :
    comparison.converse.holds doc b a = comparison.holds doc a b := by
  cases a with
  | nodes xs =>
      cases b with
      | nodes ys =>
          rw [Bool.eq_iff_iff]
          simp only [holds, ofAtoms_converse, List.any_eq_true, List.any_map, Function.comp_apply]
          constructor
          · rintro ⟨y, hy, x, hx, h⟩
            exact ⟨x, hx, y, hy, h⟩
          · rintro ⟨x, hx, y, hy, h⟩
            exact ⟨y, hy, x, hx, h⟩
      | _ => simp only [holds, ofAtoms_converse]
  | _ => cases b <;> simp only [holds, ofAtoms_converse]

section

attribute [local simp] holds nodeBeside Means Value.comparands Value.type
  Value.IsEmptyBesideBoolean ofAtoms_iff

theorem holds_nodes (comparison : Comparison) (xs : List NodeId) (b : Value) :
    comparison.holds doc (.nodes xs) b = true ↔
      comparison.Means doc (.nodes xs) b ∧ ¬ Value.IsEmptyBesideBoolean (.nodes xs) b := by
  cases b with
  | nodes ys => simp
  | string text => simp
  | number n => simp
  | boolean truth =>
      -- every node answers for the whole set, if there is one
      cases xs with
      | nil => simp
      | cons x rest => simp [Value.toBool]

theorem holds_atoms (comparison : Comparison) {a b : Value} (ha : a.type ≠ .nodeSet)
    (hb : b.type ≠ .nodeSet) :
    comparison.holds doc a b = true ↔
      comparison.Means doc a b ∧ ¬ a.IsEmptyBesideBoolean b := by
  cases a with
  | nodes xs => exact absurd rfl ha
  | _ =>
      cases b with
      | nodes ys => exact absurd rfl hb
      | _ => simp

end

/-- A comparison holds of two values of any types just if it is meant, unless one of them is the
empty node-set and the other a boolean, of which nothing holds. It does not matter on which side a
node-set stands. -/
theorem holds_iff (doc : Document) (comparison : Comparison) (a b : Value) :
    (comparison.holds doc a b = true ↔
        comparison.Means doc a b ∧ ¬ a.IsEmptyBesideBoolean b) ∧
      comparison.holds doc a b = comparison.converse.holds doc b a := by
  refine ⟨?_, (holds_converse comparison a b).symm⟩
  by_cases ha : a.type = .nodeSet
  · obtain ⟨xs, rfl⟩ := Value.exists_nodes ha
    exact holds_nodes comparison xs b
  · by_cases hb : b.type = .nodeSet
    · obtain ⟨ys, rfl⟩ := Value.exists_nodes hb
      rw [← holds_converse, holds_nodes, means_converse, Value.isEmptyBesideBoolean_comm]
    · exact holds_atoms comparison ha hb

/-- The empty node-set is false as a boolean, and the comparison of the two does not hold. -/
theorem holds_emptyNodes :
    Comparison.eq.Means Document.empty (.nodes []) (.boolean false) ∧
      Comparison.eq.holds Document.empty (.nodes []) (.boolean false) = false :=
  ⟨⟨_, List.mem_singleton_self _, _, List.mem_singleton_self _, rfl⟩, rfl⟩

end Comparison

end Schematron.XPath
