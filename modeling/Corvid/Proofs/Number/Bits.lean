import Corvid.Number.Bits
import Corvid.Proofs.Number.Rounding

/-!
Encodings. A finite encoding of single precision stands for a significand and a unit that are fixed by the magnitude:
the significand has all its bits unless the unit is the least one. So the number that an encoding stands for has that
encoding and no other.
-/
namespace Corvid

namespace Format

variable {format : Format} {significand : Nat} {exponent : Int}

/-- The unit of a magnitude whose significand has all its bits, or that is in the least unit anyway. -/
theorem unit_mul_power (positive : 0 < significand) (short : significand < 2 ^ format.precision)
    (least : format.lowest ≤ exponent)
    (full : 2 ^ format.precision ≤ 2 * significand ∨ exponent = format.lowest) :
    format.unit (significand * power 2 exponent) = exponent := by
  have scale := power_two_pos exponent
  have some : 0 < (significand : ℚ) * power 2 exponent := mul_pos (by exact_mod_cast positive) scale
  obtain ⟨lower, upper⟩ := floorLog_spec (Nat.le_refl 2) some
  have most : floorLog 2 (significand * power 2 exponent) < format.precision + exponent := by
    apply lt_of_power_two_lt (lower.trans_lt _)
    rw [power_two_add, power_two_natCast]
    exact mul_lt_mul_of_pos_right (by exact_mod_cast short) scale
  rw [unit]
  obtain full | rfl := full
  · have all : format.precision + exponent < floorLog 2 (significand * power 2 exponent) + 1 + 1 := by
      apply lt_of_power_two_lt
      calc power 2 (format.precision + exponent) ≤ 2 * (significand * power 2 exponent) := by
            rw [power_two_add, power_two_natCast, ← mul_assoc]
            exact mul_le_mul_of_nonneg_right (by exact_mod_cast full) scale.le
        _ < 2 * power 2 (floorLog 2 (significand * power 2 exponent) + 1) := by linarith
        _ = power 2 (floorLog 2 (significand * power 2 exponent) + 1 + 1) := by
            have two : power 2 1 = 2 := by norm_num [power_eq_zpow]
            rw [power_two_add (_ + 1) 1, two, mul_comm]
    omega
  · omega

end Format

namespace Number

variable {format : Format} {significand : Nat} {exponent : Int}

theorem magnitudeBits_mul_power (short : significand < 2 ^ format.precision) (least : format.lowest ≤ exponent)
    (full : 2 ^ format.precision ≤ 2 * significand ∨ exponent = format.lowest) :
    magnitudeBits format (significand * power 2 exponent) =
      (exponent - format.lowest).toNat * 2 ^ format.trailingBits + significand := by
  have scale := (Format.power_two_pos exponent).ne'
  obtain rfl | positive := Nat.eq_zero_or_pos significand
  · obtain full | rfl := full
    · have some : 0 < 2 ^ format.precision := by positivity
      omega
    · simp [magnitudeBits]
  · have filled : (significand : ℚ) * power 2 exponent ≠ 0 := mul_ne_zero (by exact_mod_cast positive.ne') scale
    have whole : ((significand : ℚ)).floor = significand := Rat.floor_intCast significand
    rw [magnitudeBits, if_neg filled]
    dsimp only
    rw [Format.unit_mul_power positive short least full, mul_div_cancel_right₀ _ scale, whole, Int.toNat_natCast]
    rfl

/-- A finite encoding of single precision, taken apart. -/
theorem ofBits_single {bits : Nat} (finite : bits / 2 ^ 23 % 2 ^ 8 ≠ 255) (tag : Nat) :
    ∃ (significand : Nat) (exponent : Int),
      ofBits .single tag bits = .finite (bits / 2 ^ 31 % 2 == 1) (significand * power 2 exponent) ∧
      significand < 2 ^ 24 ∧ -149 ≤ exponent ∧ exponent ≤ 104 ∧ (2 ^ 24 ≤ 2 * significand ∨ exponent = -149) ∧
      (exponent + 149).toNat * 2 ^ 23 + significand = bits % 2 ^ 31 := by
  have sign : bits / 2 ^ 23 / 2 ^ 8 = bits / 2 ^ 31 := by omega
  have not_top : bits / Nat.pow 2 Format.single.trailingBits % Nat.pow 2 Format.single.exponentBits ≠
      Format.single.topExponent := finite
  rw [ofBits, if_neg not_top]
  split
  · next zero =>
    change bits / 2 ^ 23 % 2 ^ 8 = 0 at zero
    refine ⟨bits % 2 ^ 23, -149, ?_, ?_⟩
    · rw [← sign]
      rfl
    · omega
  · next some =>
    change bits / 2 ^ 23 % 2 ^ 8 ≠ 0 at some
    refine ⟨2 ^ 23 + bits % 2 ^ 23, -149 + (bits / 2 ^ 23 % 2 ^ 8 : Nat) - 1, ?_, ?_⟩
    · rw [← sign]
      rfl
    · omega

/-- The number of an encoding has no other encoding. -/
theorem toBits?_ofBits {bits : Nat} (size : bits < 2 ^ 32) (finite : bits / 2 ^ 23 % 2 ^ 8 ≠ 255) (tag : Nat) :
    toBits? .single (ofBits .single tag bits) = some bits := by
  obtain ⟨significand, exponent, number, short, least, _, full, rest⟩ := ofBits_single finite tag
  have unsigned : magnitudeBits .single (significand * power 2 exponent) =
      (exponent - -149).toNat * 2 ^ 23 + significand := magnitudeBits_mul_power short least full
  rw [sub_neg_eq_add] at unsigned
  rw [number, toBits?, unsigned, rest]
  have half : Nat.pow 2 Format.single.exponentBits * Nat.pow 2 Format.single.trailingBits = 2 ^ 31 := rfl
  by_cases negative : bits / 2 ^ 31 % 2 = 1
  · simp only [negative, beq_self_eq_true, if_true, half]
    congr 1
    omega
  · simp only [beq_iff_eq, negative, if_false]
    congr 1
    omega

end Number

end Corvid
