import Mathlib
import Schematron.Numeric.Decimal

/-!
# Whole numbers as doubles

A positive whole number below `2 ^ 53` is a double, and it is the same double whether it is read as
a decimal or counted: `wholeFloat_beq` compares the one with the other and finds them equal just if
the numbers are.

Both ways lead to the double whose mantissa is the number with so many zeros behind it that it has
53 bits (`IsWhole`). Reading rounds a quotient with the denominator one (`isWhole_ofDecimal`);
counting rounds the number itself and multiplies the result by one (`isWhole_ofNat`).
-/

namespace Schematron.Numeric

open Float.Model Float.Model.UnpackedFloat Float.Model.Format

/-! ## Doubles with 53 bits -/

/-- A mantissa of 53 bits and an exponent that no rounding touches. -/
structure IsNormal (m : Nat) (e : Int) : Prop where
  low : 2 ^ 52 ≤ m
  high : m < 2 ^ 53
  least : -1074 ≤ e
  most : e ≤ 0

namespace IsNormal

variable {m : Nat} {e : Int}

theorem pos (h : IsNormal m e) : 0 < m := Nat.lt_of_lt_of_le (by decide) h.low

theorem log2_eq (h : IsNormal m e) : m.log2 = 52 := by
  have hne : m ≠ 0 := Nat.pos_iff_ne_zero.mp h.pos
  have hlow : 52 ≤ m.log2 := (Nat.le_log2 hne).mpr h.low
  have hhigh : m.log2 < 53 := (Nat.log2_lt hne).mpr h.high
  omega

end IsNormal

theorem finite_congr {sign : Sign} {m m' : Nat} {e e' : Int} {h h'} (hm : m = m') (he : e = e') :
    UnpackedFloat.finite sign m e h = .finite sign m' e' h' := by
  subst hm he
  rfl

/-- The number that stands for a mantissa whose first bit is left out. -/
theorem toNat_implicit (f : BitVec 52) : (1#1 ++ f).toNat = 2 ^ 52 + f.toNat := by
  rw [BitVec.toNat_append, ← Nat.shiftLeft_add_eq_or_of_lt f.isLt]
  rfl

/-- The double with an exponent that is neither the least nor the greatest one. -/
theorem unpack_packComponents {k f : Nat} (hk : 0 < k) (hk' : k < 2047) (hf : f < 2 ^ 52) :
    UnpackedFloat.unpack binary64
        (packComponents binary64 .positive (BitVec.ofNat 11 k) (BitVec.ofNat 52 f)) =
      .finite .positive (2 ^ 52 + f) (k - 1075) (by omega) := by
  have hkmod : k % 2 ^ 11 = k := Nat.mod_eq_of_lt (by omega)
  have hleast : BitVec.ofNat 11 k ≠ 0#11 := by
    intro h
    have := congrArg BitVec.toNat h
    simp only [BitVec.toNat_ofNat, hkmod] at this
    omega
  have hgreatest : BitVec.ofNat 11 k ≠ -1#11 := by
    intro h
    have := congrArg BitVec.toNat h
    rw [BitVec.toNat_ofNat, hkmod] at this
    have hmost : (-1#11).toNat = 2047 := by decide
    omega
  have hmantissa : (1#1 ++ BitVec.ofNat 52 f).toNat = 2 ^ 52 + f := by
    rw [toNat_implicit, BitVec.toNat_ofNat, Nat.mod_eq_of_lt hf]
  have hbias : (binary64.exponentBias : Int) + (52 : Nat) = 1075 := by decide
  rw [UnpackedFloat.unpack]
  simp only [unpackMantissa_packComponents, unpackExponent_packComponents,
    unpackSign_packComponents, hmantissa, hbias]
  rw [if_neg hgreatest, if_neg hleast]
  simp only [BitVec.toNat_ofNat, hkmod]
  rfl

/-- Packing a mantissa of 53 bits and unpacking it again loses nothing. -/
theorem unpack_pack {m : Nat} {e : Int} (h : IsNormal m e) :
    UnpackedFloat.unpack binary64 (UnpackedFloat.pack binary64 (.finite .positive m e h.pos)) =
      .finite .positive m e h.pos := by
  obtain ⟨f, rfl⟩ : ∃ f, m = 2 ^ 52 + f := ⟨m - 2 ^ 52, by have := h.low; omega⟩
  have hf : f < 2 ^ 52 := by
    have := h.high
    omega
  obtain ⟨k, hk⟩ : ∃ k : Nat, e + 1075 = k :=
    ⟨(e + 1075).toNat, by have := h.least; omega⟩
  have hbias : (binary64.exponentBias : Int) + (52 : Nat) = 1075 := by decide
  have hbiased : (e + binary64.exponentBias + (52 : Nat)).toNat = k := by
    rw [Int.add_assoc, hbias, hk]
    exact Int.toNat_natCast k
  have hleast := h.least
  have hmost := h.most
  have hpack : UnpackedFloat.pack binary64 (.finite .positive (2 ^ 52 + f) e h.pos) =
      packComponents binary64 .positive (BitVec.ofNat 11 k) (BitVec.ofNat 52 f) := by
    have hsmall : ¬ 2 ^ 11 ≤ k + 1 := by omega
    have hlog : (2 ^ 52 + f).log2 + 1 = binary64.mantissaBits := by rw [h.log2_eq]; rfl
    rw [UnpackedFloat.pack]
    simp only [hbiased]
    rw [if_neg hsmall, if_pos hlog]
    congr 1
    exact BitVec.eq_of_toNat_eq (by simp)
  rw [hpack, unpack_packComponents (by omega) (by omega) hf]
  exact finite_congr rfl (by omega)

/-! ## Rounding -/

theorem log2_mul_two_pow {n : Nat} (hn : n ≠ 0) (j : Nat) : (n * 2 ^ j).log2 = n.log2 + j := by
  have hpos : 0 < 2 ^ j := Nat.two_pow_pos j
  have hbounds := (Nat.log2_eq_iff hn).mp rfl
  rw [Nat.log2_eq_iff (Nat.mul_ne_zero hn (by omega)), Nat.pow_add, Nat.add_right_comm, Nat.pow_add]
  exact ⟨Nat.mul_le_mul_right _ hbounds.1, Nat.mul_lt_mul_of_pos_right hbounds.2 hpos⟩

/-- Zeros at the end of a mantissa are shifted out without a trace. -/
theorem shiftRight_mantissa (m j : Nat) :
    (⟨m * 2 ^ j, false, false⟩ : ExtendedMantissa) >>> j = ⟨m, false, false⟩ := by
  show Nat.repeat ExtendedMantissa.shiftRightOne j _ = _
  induction j generalizing m with
  | zero => simp [Nat.repeat]
  | succ j ih =>
      have hsplit : m * 2 ^ (j + 1) = m * 2 * 2 ^ j := by
        rw [Nat.pow_succ, Nat.mul_comm (2 ^ j) 2, Nat.mul_assoc]
      rw [Nat.repeat, hsplit, ih (m * 2)]
      simp [ExtendedMantissa.shiftRightOne]

theorem targetExponent_shifted {m : Nat} {e : Int} (h : IsNormal m e) (j : Nat) :
    binary64.targetExponent (totalExponent (m * 2 ^ j) (e - j)) = e := by
  have hlog : (m * 2 ^ j).log2 = 52 + j := by
    rw [log2_mul_two_pow (Nat.pos_iff_ne_zero.mp h.pos), h.log2_eq]
  have hbits : (binary64.mantissaBits : Int) = 53 := by decide
  have hleast : binary64.minExponent = -1074 := by decide
  rw [targetExponent, totalExponent, hlog, hbits, hleast]
  have := h.least
  omega

theorem shiftToTargetExponent_shifted {m : Nat} {e : Int} (h : IsNormal m e) (j : Nat) :
    shiftToTargetExponent binary64 (m * 2 ^ j) (e - j) .exact = (⟨m, false, false⟩, e) := by
  rw [shiftToTargetExponent, targetExponent_shifted h]
  have hshift : (e - (e - (j : Int))).toNat = j := by omega
  simp only [shiftToExponent, hshift, ExtendedMantissa.ofMantissaAndAccuracy, shiftRight_mantissa]
  rw [Int.sub_add_cancel]

/-- A mantissa of 53 bits with zeros behind it is rounded to the mantissa. -/
theorem roundWithAccuracy_shifted {m : Nat} {e : Int} (h : IsNormal m e) (j : Nat) :
    roundWithAccuracy binary64 .positive (m * 2 ^ j) (e - j) .exact =
      .finite .positive m e h.pos := by
  have hagain := shiftToTargetExponent_shifted h 0
  rw [Nat.pow_zero, Nat.mul_one, Int.natCast_zero, Int.sub_zero] at hagain
  have hrounded : (⟨m, false, false⟩ : ExtendedMantissa).roundedMantissa = m := rfl
  rw [roundWithAccuracy]
  simp only [shiftToTargetExponent_shifted h, hrounded, hagain]
  rw [dif_neg (Nat.pos_iff_ne_zero.mp h.pos)]

/-! ## Whole numbers -/

/-- A whole number with so many zeros behind it that it has 53 bits. -/
def wholeMantissa (n : Nat) : Nat := n * 2 ^ (52 - n.log2)

def wholeExponent (n : Nat) : Int := (n.log2 : Int) - 52

/-- The double is a whole number. -/
def IsWhole (x : Float) (n : Nat) : Prop :=
  ∃ h, x.toModel.unpack = .finite .positive (wholeMantissa n) (wholeExponent n) h

theorem log2_le {n : Nat} (hn : 0 < n) (hn' : n < 2 ^ 53) : n.log2 ≤ 52 :=
  Nat.le_of_lt_succ ((Nat.log2_lt (Nat.pos_iff_ne_zero.mp hn)).mpr hn')

theorem isNormal_whole {n : Nat} (hn : 0 < n) (hn' : n < 2 ^ 53) :
    IsNormal (wholeMantissa n) (wholeExponent n) := by
  have hne : n ≠ 0 := Nat.pos_iff_ne_zero.mp hn
  have hlog := log2_le hn hn'
  have hmantissa : (wholeMantissa n).log2 = 52 := by
    rw [wholeMantissa, log2_mul_two_pow hne]
    omega
  have hpos : wholeMantissa n ≠ 0 :=
    Nat.mul_ne_zero hne (Nat.pos_iff_ne_zero.mp (Nat.two_pow_pos _))
  obtain ⟨hlow, hhigh⟩ := (Nat.log2_eq_iff hpos).mp hmantissa
  exact ⟨hlow, hhigh, by rw [wholeExponent]; omega, by rw [wholeExponent]; omega⟩

/-- Two whole numbers are equal as doubles just if they are equal. -/
theorem IsWhole.beq {x y : Float} {n m : Nat} (hx : IsWhole x n) (hy : IsWhole y m) :
    (x == y) = decide (n = m) := by
  obtain ⟨_, hx⟩ := hx
  obtain ⟨_, hy⟩ := hy
  have hbeq : (x == y) = (x.toModel.unpack.compare y.toModel.unpack == some .eq) := rfl
  rw [hbeq, hx, hy, UnpackedFloat.compare]
  by_cases h : n = m
  · subst h
    simp
  · have hne : ¬ (wholeExponent n = wholeExponent m ∧ wholeMantissa n = wholeMantissa m) := by
      rintro ⟨hexponent, hmantissa⟩
      rw [wholeExponent, wholeExponent] at hexponent
      have hlog : n.log2 = m.log2 := by omega
      rw [wholeMantissa, wholeMantissa, hlog] at hmantissa
      exact h (Nat.eq_of_mul_eq_mul_right (Nat.two_pow_pos _) hmantissa)
    simp [Ordering.then_eq_eq, h, hne]

/-- What rounding leaves is a whole number if it did not have to round. -/
theorem isWhole_pack {n : Nat} (hn : 0 < n) (hn' : n < 2 ^ 53) {h} :
    IsWhole (.ofModel (.pack
      (.finite .positive (wholeMantissa n) (wholeExponent n) h))) n :=
  ⟨h, unpack_pack (isNormal_whole hn hn')⟩

/-- The number itself rounds to a whole number. -/
theorem round_whole {n : Nat} (hn : 0 < n) (hn' : n < 2 ^ 53) :
    UnpackedFloat.round binary64 .positive n 0 =
      .finite .positive (wholeMantissa n) (wholeExponent n) (isNormal_whole hn hn').pos := by
  have hlog := log2_le hn hn'
  have hbits : (binary64.mantissaBits : Int) = 53 := by decide
  have hleast : binary64.minExponent = -1074 := by decide
  have htarget : binary64.targetExponent (totalExponent n 0) = wholeExponent n := by
    rw [targetExponent, totalExponent, hbits, hleast, wholeExponent]
    omega
  have hshift : (0 - wholeExponent n).toNat = 52 - n.log2 := by
    rw [wholeExponent]
    omega
  have hexponent : 0 - ((52 - n.log2 : Nat) : Int) = wholeExponent n := by
    rw [wholeExponent]
    omega
  have hround := roundWithAccuracy_shifted (isNormal_whole hn hn') 0
  rw [Nat.pow_zero, Nat.mul_one, Int.natCast_zero, Int.sub_zero] at hround
  rw [UnpackedFloat.round]
  simp only [htarget, decreaseExponent, hshift, hexponent, Nat.shiftLeft_eq]
  exact hround

/-- The double that a whole number is converted to. -/
theorem isWhole_toFloat {n : Nat} (hn : 0 < n) (hn' : n < 2 ^ 53) :
    IsWhole n.toUInt64.toFloat n := by
  have hnat : n.toUInt64.toNat = n := Nat.mod_eq_of_lt (by omega)
  have hnormalize : UnpackedFloat.ofUInt64 binary64 n.toUInt64 =
      .finite .positive (wholeMantissa n) (wholeExponent n) (isNormal_whole hn hn').pos := by
    have hcompare : compare (n : Int) 0 = .gt := Int.compare_eq_gt.mpr (by omega)
    rw [UnpackedFloat.ofUInt64, UnpackedFloat.ofNat, UnpackedFloat.ofInt, hnat,
      UnpackedFloat.normalize, hcompare]
    exact round_whole hn hn'
  have hfloat : n.toUInt64.toFloat =
      .ofModel (.pack (UnpackedFloat.ofUInt64 binary64 n.toUInt64)) := rfl
  rw [hfloat, hnormalize]
  exact isWhole_pack hn hn'

/-- The double that a number is counted as. -/
theorem isWhole_ofNat {n : Nat} (hn : 0 < n) (hn' : n < 2 ^ 53) : IsWhole (Float.ofNat n) n := by
  have hnormal := isNormal_whole hn hn'
  obtain ⟨_, hfactor⟩ := isWhole_toFloat hn hn'
  have hone : (Float.ofBits 0x3FF0000000000000).toModel.unpack =
      .finite .positive (2 ^ 52) (-52) (by decide) := by rfl
  have hproduct : Float.ofNat n = n.toUInt64.toFloat * Float.ofBits 0x3FF0000000000000 := by
    show Float.ofScientific n false 0 = _
    rw [Float.ofScientific, dif_pos ⟨hn', by decide⟩]
    rfl
  have hmul : Float.ofNat n = .ofModel (.pack (UnpackedFloat.mul binary64
      n.toUInt64.toFloat.toModel.unpack (Float.ofBits 0x3FF0000000000000).toModel.unpack)) := hproduct
  rw [hmul, hfactor, hone, UnpackedFloat.mul]
  have hround := roundWithAccuracy_shifted hnormal 52
  have hsign : Sign.positive * Sign.positive = Sign.positive := rfl
  rw [hsign]
  have hexponent : wholeExponent n + -52 = wholeExponent n - ((52 : Nat) : Int) := rfl
  rw [hexponent, hround]
  exact isWhole_pack hn hn'

/-! ## Reading -/

/-- The bits of a double with an exponent that is neither the least nor the greatest one. -/
theorem ofNat_eq_packComponents {k f : Nat} (hk : k < 2047) (hf : f < 2 ^ 52) :
    BitVec.ofNat 64 (k * 2 ^ 52 + f) =
      packComponents binary64 .positive (BitVec.ofNat 11 k) (BitVec.ofNat 52 f) := by
  refine BitVec.eq_of_toNat_eq ?_
  have hk' : k % 2 ^ 11 = k := Nat.mod_eq_of_lt (by omega)
  have hf' : f % 2 ^ 52 = f := Nat.mod_eq_of_lt hf
  have hbits : (k * 2 ^ 52 + f) % 2 ^ 64 = k * 2 ^ 52 + f := Nat.mod_eq_of_lt (by omega)
  have hsign : Sign.positive.toBitVec.toNat = 0 := rfl
  rw [packComponents, BitVec.toNat_append, BitVec.toNat_append, hsign]
  simp only [BitVec.toNat_ofNat, hk', hf', hbits, Nat.zero_shiftLeft, Nat.zero_or]
  rw [← Nat.shiftLeft_add_eq_or_of_lt hf, Nat.shiftLeft_eq]

theorem scaled_one (n j : Nat) : Binary.scaled n 1 j = (n * 2 ^ j, 1) := by
  have hneg : (-(j : Int)).toNat = 0 := by omega
  simp [Binary.scaled, hneg]

theorem exponentOf_whole {n : Nat} (hn : 0 < n) (hn' : n < 2 ^ 53) :
    Binary.exponentOf n 1 = wholeExponent n := by
  have hlog := log2_le hn hn'
  have hguess : -((n.log2 : Int) - (Nat.log2 1 : Nat) - ((Binary.fractionBits : Nat) + 1)) =
      ((52 - n.log2 + 1 : Nat) : Int) := by
    have hone : Nat.log2 1 = 0 := by decide
    rw [hone, Binary.fractionBits]
    omega
  -- one zero more makes the mantissa too long
  have hlong : ¬ n * 2 ^ (52 - n.log2 + 1) / 1 < Nat.pow 2 (Binary.fractionBits + 1) := by
    have hlow := (isNormal_whole hn hn').low
    rw [wholeMantissa] at hlow
    rw [Nat.div_one, Nat.pow_succ, ← Nat.mul_assoc, Binary.fractionBits]
    show ¬ _ < 2 ^ 53
    omega
  rw [Binary.exponentOf]
  simp only [hguess, scaled_one]
  rw [if_neg hlong, Binary.leastExponent, wholeExponent]
  omega

theorem roundDiv_one (n : Nat) : Binary.roundDiv n 1 = n := by
  simp [Binary.roundDiv, Nat.mod_one]

/-- Rounding the quotient of a whole number and one gives the whole number. -/
theorem isWhole_nearest {n : Nat} (hn : 0 < n) (hn' : n < 2 ^ 53) :
    IsWhole (Binary.nearest false n 1) n := by
  have hlog := log2_le hn hn'
  have hnormal := isNormal_whole hn hn'
  obtain ⟨f, hf⟩ : ∃ f, wholeMantissa n = 2 ^ 52 + f :=
    ⟨wholeMantissa n - 2 ^ 52, by have := hnormal.low; omega⟩
  have hf' : f < 2 ^ 52 := by
    have := hnormal.high
    omega
  have hexponent : -wholeExponent n = ((52 - n.log2 : Nat) : Int) := by
    rw [wholeExponent]
    omega
  have hmantissa : n * 2 ^ (52 - n.log2) = wholeMantissa n := rfl
  have hbiased : (wholeExponent n - Binary.leastExponent).toNat = n.log2 + 1022 := by
    rw [wholeExponent, Binary.leastExponent]
    omega
  have hmagnitude : (n.log2 + 1022) * 2 ^ 52 + wholeMantissa n =
      (n.log2 + 1023) * 2 ^ 52 + f := by
    rw [hf]
    omega
  have hbits : Binary.nearest false n 1 =
      Float.ofBits ((n.log2 + 1023) * 2 ^ 52 + f).toUInt64 := by
    have hfinite : min ((n.log2 + 1023) * 2 ^ 52 + f) Binary.infinityBits =
        (n.log2 + 1023) * 2 ^ 52 + f := by
      refine Nat.min_eq_left ?_
      show _ ≤ 2047 * 2 ^ 52
      omega
    have hbase : Nat.pow 2 Binary.fractionBits = 2 ^ 52 := rfl
    rw [Binary.nearest]
    simp only [if_neg (Nat.pos_iff_ne_zero.mp hn), exponentOf_whole hn hn', hexponent, scaled_one,
      roundDiv_one, hbiased, hbase, Bool.false_eq_true, if_false, Nat.add_zero, hmantissa,
      hmagnitude, hfinite]
  have hpositive : 0 < n.log2 + 1023 := by omega
  have hsmall : n.log2 + 1023 < 2047 := by omega
  have hunpack := unpack_packComponents hpositive hsmall hf'
  rw [← ofNat_eq_packComponents hsmall hf'] at hunpack
  have hvalue : UnpackedFloat.finite .positive (2 ^ 52 + f) ((n.log2 + 1023 : Nat) - 1075)
        (by omega) =
      .finite .positive (wholeMantissa n) (wholeExponent n) hnormal.pos := by
    refine finite_congr hf.symm ?_
    rw [wholeExponent]
    omega
  rw [hvalue] at hunpack
  have hpack : Float.ofBits ((n.log2 + 1023) * 2 ^ 52 + f).toUInt64 =
      .ofModel (.pack (UnpackedFloat.unpack binary64
        (BitVec.ofNat 64 ((n.log2 + 1023) * 2 ^ 52 + f)))) := rfl
  rw [hbits, hpack, hunpack]
  exact isWhole_pack hn hn'

/-- The double that a number is read as. -/
theorem isWhole_ofDecimal {n : Nat} (hn : 0 < n) (hn' : n < 2 ^ 53) :
    IsWhole (Decimal.toFloat { digits := n }) n := by
  have hcount : Decimal.digitCount n ≤ 16 :=
    (Nat.length_toDigits_le_iff (by decide) (by decide)).mpr (Nat.lt_trans hn' (by decide))
  have hread : Decimal.toFloat { digits := n } = Binary.nearest false n 1 := by
    rw [Decimal.toFloat, Decimal.smallestPower, Decimal.largestPower]
    simp only [Int.add_zero]
    rw [if_neg (by omega), if_neg (by omega)]
    simp
  rw [hread]
  exact isWhole_nearest hn hn'

/-- Of whole numbers a read one and a counted one are equal as doubles just if they are equal. -/
theorem wholeFloat_beq {n m : Nat} (hn : 0 < n) (hn' : n < 2 ^ 53) (hm : 0 < m)
    (hm' : m < 2 ^ 53) :
    (Decimal.toFloat { digits := n } == Float.ofNat m) = decide (n = m) :=
  (isWhole_ofDecimal hn hn').beq (isWhole_ofNat hm hm')

end Schematron.Numeric
