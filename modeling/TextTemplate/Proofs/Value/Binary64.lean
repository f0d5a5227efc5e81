import TextTemplate.Value.Scientific
import Mathlib

namespace TextTemplate

/-- The fields that the bits of a double-precision number consist of. -/
structure Binary64 where
  negative : Bool
  exponent : ℕ
  fraction : ℕ
  exponent_lt : exponent < 2 ^ 11
  fraction_lt : fraction < 2 ^ 52

namespace Binary64

def bits (x : Binary64) : UInt64 :=
  .ofNat (x.negative.toNat * 2 ^ 63 + x.exponent * 2 ^ 52 + x.fraction)

def IsFinite (x : Binary64) : Prop := x.exponent ≠ 2047

def IsNaN (x : Binary64) : Prop := x.exponent = 2047 ∧ x.fraction ≠ 0

/-- The exponent is that of a leading one in front of the fraction, but the least exponent is that of the
smallest numbers with a leading one, and in front of the fraction is a zero. -/
def magnitude (x : Binary64) : ℚ :=
  if x.exponent = 0 then x.fraction / 2 ^ 52 * 2 ^ (-1022 : ℤ)
  else (1 + x.fraction / 2 ^ 52) * 2 ^ ((x.exponent : ℤ) - 1023)

def value (x : Binary64) : ℚ := if x.negative then -x.magnitude else x.magnitude

variable {x : Binary64}

theorem toNat_bits (x : Binary64) :
    x.bits.toNat = x.negative.toNat * 2 ^ 63 + x.exponent * 2 ^ 52 + x.fraction := by
  have hs := x.negative.toNat_le
  have he := x.exponent_lt
  have hf := x.fraction_lt
  exact UInt64.toNat_ofNat_of_lt (by rw [UInt64.size]; omega)

theorem bits_surjective : Function.Surjective bits := by
  intro b
  refine ⟨⟨b.toNat / 2 ^ 63 = 1, b.toNat / 2 ^ 52 % 2 ^ 11, b.toNat % 2 ^ 52, by omega, by omega⟩, ?_⟩
  apply UInt64.toNat_inj.1
  have hb := b.toNat_lt
  rw [toNat_bits]
  by_cases hs : b.toNat / 2 ^ 63 = 1
  · simp only [hs, decide_true, Bool.toNat_true]
    omega
  · simp only [hs, decide_false, Bool.toNat_false]
    omega

section

open Float.Model

theorem toNat_unpackExponent (x : Binary64) :
    (@UnpackedFloat.unpackExponent Format.binary64 x.bits.toBitVec).toNat = x.exponent := by
  have he := x.exponent_lt
  have hf := x.fraction_lt
  have hb := x.toNat_bits
  rw [UnpackedFloat.unpackExponent, BitVec.toNat_cast, BitVec.extractLsb_toNat, Nat.shiftRight_eq_div_pow]
  change x.bits.toNat / 2 ^ 52 % 2 ^ 11 = x.exponent
  omega

theorem toNat_unpackMantissa (x : Binary64) :
    (@UnpackedFloat.unpackMantissa Format.binary64 x.bits.toBitVec).toNat = x.fraction := by
  have hf := x.fraction_lt
  have hb := x.toNat_bits
  rw [UnpackedFloat.unpackMantissa, BitVec.toNat_cast, BitVec.extractLsb_toNat, Nat.shiftRight_eq_div_pow]
  change x.bits.toNat / 2 ^ 0 % 2 ^ 52 = x.fraction
  omega

theorem unpackExponent_eq_iff (x : Binary64) :
    @UnpackedFloat.unpackExponent Format.binary64 x.bits.toBitVec = -1#11 ↔ x.exponent = 2047 := by
  rw [← BitVec.toNat_inj, toNat_unpackExponent]
  rfl

theorem unpackMantissa_eq_iff (x : Binary64) :
    @UnpackedFloat.unpackMantissa Format.binary64 x.bits.toBitVec = 0#52 ↔ x.fraction = 0 := by
  rw [← BitVec.toNat_inj, toNat_unpackMantissa]
  rfl

theorem toBits_ofBits (hx : ¬ x.IsNaN) : (Float.ofBits x.bits).toBits = x.bits := by
  -- a value is its bits with a proof that they are not those of a second not-a-number
  have hvalid : Format.binary64.Valid x.bits.toBitVec := by
    constructor
    intro he hf
    exact absurd ⟨x.unpackExponent_eq_iff.1 he, fun h => hf (x.unpackMantissa_eq_iff.2 h)⟩ hx
  exact congrArg Float.toBits (Float.ofBits_toBits ⟨⟨x.bits, hvalid⟩⟩)

/-- There is one value only that is no number. -/
theorem toBits_ofBits_nan (hx : x.IsNaN) : (Float.ofBits x.bits).toBits = 0x7ff8000000000000 := by
  have hu : UnpackedFloat.unpack Format.binary64 x.bits.toBitVec = .notANumber := by
    rw [UnpackedFloat.unpack]
    exact (if_pos (x.unpackExponent_eq_iff.2 hx.1)).trans
      (if_neg fun h => hx.2 (x.unpackMantissa_eq_iff.1 h))
  change (pack (UnpackedFloat.unpack Format.binary64 x.bits.toBitVec)).toBits = _
  rw [hu]
  decide

end

section

open Scientific

theorem decode_bits (x : Binary64) : decode x.bits.toNat =
    if x.exponent = 2047 then if x.fraction = 0 then .infinite x.negative else .nan
    else if x.exponent = 0 then .finite x.negative x.fraction (-1074)
    else .finite x.negative (2 ^ 52 + x.fraction) ((x.exponent : ℤ) - 1075) := by
  have hb := x.toNat_bits
  have hs := x.negative.toNat_le
  have he := x.exponent_lt
  have hf := x.fraction_lt
  have hsign : x.bits.toNat / 2 ^ 63 % 2 = x.negative.toNat := by omega
  have hexponent : x.bits.toNat / 2 ^ 52 % 2 ^ 11 = x.exponent := by omega
  have hfraction : x.bits.toNat % 2 ^ 52 = x.fraction := by omega
  have hnegative : decide (x.negative.toNat = 1) = x.negative := by cases x.negative <;> rfl
  rw [decode]
  simp only [Nat.pow_eq, hsign, hexponent, hfraction, hnegative]

theorem decode_nan (hx : x.IsNaN) : decode (Float.ofBits x.bits).toBits.toNat = .nan := by
  rw [toBits_ofBits_nan hx]
  decide

theorem decode_infinite (he : x.exponent = 2047) (hf : x.fraction = 0) :
    decode (Float.ofBits x.bits).toBits.toNat = .infinite x.negative := by
  rw [toBits_ofBits fun h => h.2 hf, decode_bits, if_pos he, if_pos hf]

theorem decode_finite (hx : x.IsFinite) : ∃ m e,
    decode (Float.ofBits x.bits).toBits.toNat = .finite x.negative m e ∧ x.magnitude = m * 2 ^ e ∧
      m < 2 ^ 53 ∧ -1074 ≤ e ∧ e ≤ 971 := by
  have hpow (k : ℤ) : (2 : ℚ) ^ (k + 52) = 2 ^ 52 * 2 ^ k := by
    rw [zpow_add₀ two_ne_zero, mul_comm]
    norm_cast
  have he := x.exponent_lt
  have hf := x.fraction_lt
  rw [toBits_ofBits fun h => hx h.1, decode_bits, if_neg hx, magnitude]
  rw [IsFinite] at hx
  split
  · refine ⟨_, _, rfl, ?_, by omega, by omega, by omega⟩
    have hk : (-1022 : ℤ) = -1074 + 52 := by norm_num
    rw [hk, hpow, ← mul_assoc, div_mul_cancel₀ _ (by norm_num)]
  · refine ⟨_, _, rfl, ?_, by omega, by omega, by omega⟩
    have hk : (x.exponent : ℤ) - 1023 = (x.exponent : ℤ) - 1075 + 52 := by ring
    rw [hk, hpow, ← mul_assoc, add_mul, one_mul, div_mul_cancel₀ _ (by norm_num)]
    push_cast
    rfl

theorem value_eq_zero_iff : x.value = 0 ↔ x.magnitude = 0 := by
  rw [value]
  split
  · exact neg_eq_zero
  · rfl

end

end Binary64

end TextTemplate
