import Corvid.Number.Arithmetic
import Corvid.Number.Decimal
import Corvid.Proofs.Number.Rounding

/-!
Single precision. Every operation of the language ends in rounding to single precision, so whatever its operands
are its result is an infinity, a NaN, or a magnitude of 24 significant bits in the range of that format.
-/
namespace Corvid

namespace Number

/-- The numbers of single precision: at most 24 significant bits, the last of them worth from `2 ^ -149` to
`2 ^ 104`. -/
def IsSingle : Number → Prop
  | .finite _ magnitude => ∃ (significand : Nat) (exponent : Int), significand < 2 ^ 24 ∧ -149 ≤ exponent ∧
      exponent ≤ 104 ∧ magnitude = significand * (2 : ℚ) ^ exponent
  | _ => True

theorem isSingle_finite {negative : Bool} {magnitude : ℚ} :
    IsSingle (.finite negative magnitude) ↔ Format.single.Holds magnitude := by
  simp only [IsSingle, Format.Holds, power_eq_zpow]
  rfl

/-- Numbers whose sign is kept apart from their magnitude. -/
def Unsigned : Number → Prop
  | .finite _ magnitude => 0 ≤ magnitude
  | _ => True

theorem IsSingle.unsigned {number : Number} (single : number.IsSingle) : number.Unsigned := by
  cases number with
  | finite negative magnitude => exact (isSingle_finite.mp single).nonneg
  | _ => trivial

theorem roundTo_unsigned {format : Format} (proper : format.Proper) {number : Number} (unsigned : number.Unsigned) :
    (number.roundTo format).Unsigned := by
  cases number with
  | finite negative magnitude =>
    obtain infinite | ⟨rounded, finite, holds⟩ := Format.fit_cases proper negative unsigned
    · rw [roundTo, infinite]
      trivial
    · rw [roundTo, finite]
      exact holds.nonneg
  | _ => trivial

theorem roundTo_isSingle {number : Number} (unsigned : number.Unsigned) : (number.roundTo .single).IsSingle := by
  cases number with
  | finite negative magnitude =>
    obtain infinite | ⟨rounded, finite, holds⟩ := Format.fit_cases Format.single_proper negative unsigned
    · rw [roundTo, infinite]
      trivial
    · rw [roundTo, finite]
      exact isSingle_finite.mpr holds
  | _ => trivial

theorem settleSingle_isSingle {number : Number} (unsigned : number.Unsigned) : number.settleSingle.IsSingle :=
  roundTo_isSingle (roundTo_unsigned Format.double_proper unsigned)

theorem ofRat_unsigned (negativeZero : Bool) (q : ℚ) : (ofRat negativeZero q).Unsigned := by
  rw [ofRat]
  split
  · exact le_refl (0 : ℚ)
  · split
    · next negative => exact (neg_pos.mpr negative).le
    · next nonneg => exact not_lt.mp nonneg

variable {left right : Number}

theorem exactSum_unsigned (fresh : Nat) (left right : Number) : (exactSum fresh left right).Unsigned := by
  unfold exactSum
  split
  · trivial
  · trivial
  · split <;> trivial
  · trivial
  · trivial
  · exact ofRat_unsigned _ _

theorem exactProduct_unsigned (fresh : Nat) (unsigned : left.Unsigned) (unsigned' : right.Unsigned) :
    (exactProduct fresh left right).Unsigned := by
  unfold exactProduct
  split
  · trivial
  · trivial
  · trivial
  · split <;> trivial
  · split <;> trivial
  · exact mul_nonneg unsigned unsigned'

theorem exactQuotient_unsigned (fresh : Nat) (unsigned : left.Unsigned) (unsigned' : right.Unsigned) :
    (exactQuotient fresh left right).Unsigned := by
  unfold exactQuotient
  split
  · trivial
  · trivial
  · trivial
  · trivial
  · exact le_refl (0 : ℚ)
  · exact div_nonneg unsigned unsigned'

end Number

theorem Decimal.toNumber_unsigned {format : Format} (proper : format.Proper) (decimal : Decimal) :
    (decimal.toNumber format).Unsigned := by
  rw [Decimal.toNumber]
  split
  · exact le_refl (0 : ℚ)
  · split
    · trivial
    · have nonneg : 0 ≤ decimal.magnitude := by
        rw [Decimal.magnitude, power_eq_zpow]
        positivity
      have unsigned : Number.Unsigned (.finite decimal.negative decimal.magnitude) := nonneg
      exact Number.roundTo_unsigned proper unsigned

/-- The value of a decimal literal is in single precision. -/
theorem Decimal.literal_isSingle (decimal : Decimal) :
    ((decimal.toNumber .double).roundTo .single).IsSingle :=
  Number.roundTo_isSingle (decimal.toNumber_unsigned Format.double_proper)

end Corvid
