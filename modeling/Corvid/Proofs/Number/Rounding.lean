import Corvid.Number.Basic
import Mathlib.Algebra.Order.Field.Power
import Mathlib.Data.Rat.Floor
import Mathlib.Tactic.Linarith

/-!
Rounding to a format. The logarithm is the exponent of the leading bit, so a rounded magnitude has no more
significant bits than its format, and one that is not beyond the largest lies in the format's range.
-/
namespace Corvid

theorem power_eq_zpow (base : Nat) (exponent : Int) : power base exponent = (base : ℚ) ^ exponent := by
  cases exponent with
  | ofNat n => simp [power]
  | negSucc n => simp [power, zpow_negSucc]

section Powers

variable {base : Nat} (large : 2 ≤ base)

include large

theorem power_pos (exponent : Int) : 0 < power base exponent := by
  rw [power_eq_zpow]
  exact zpow_pos (by exact_mod_cast (by omega : 0 < base)) _

theorem power_add (a b : Int) : power base (a + b) = power base a * power base b := by
  simp only [power_eq_zpow]
  exact zpow_add₀ (by exact_mod_cast (by omega : base ≠ 0)) a b

theorem power_le {a b : Int} (le : a ≤ b) : power base a ≤ power base b := by
  simp only [power_eq_zpow]
  exact zpow_le_zpow_right₀ (by exact_mod_cast (by omega : 1 ≤ base)) le

theorem lt_of_power_lt {a b : Int} (lt : power base a < power base b) : a < b :=
  lt_of_not_ge fun le => (power_le large le).not_gt lt

end Powers

theorem power_natCast (base n : Nat) : power base (n : Int) = ((base ^ n : Nat) : ℚ) := by
  rw [power_eq_zpow, zpow_natCast]
  norm_cast

/-! Logarithms -/

theorem divisions_spec {base : Nat} (large : 2 ≤ base) {fuel n : Nat} (enough : n < 2 ^ fuel) :
    (0 < n → base ^ divisions base fuel n ≤ n) ∧ n < base ^ (divisions base fuel n + 1) := by
  induction fuel generalizing n with
  | zero =>
    have zero : n = 0 := by simpa using enough
    subst zero
    simp [divisions]
    omega
  | succ fuel ih =>
    rw [divisions]
    split
    · next small => exact ⟨fun positive => Nat.pow_zero base ▸ positive, by simpa using small⟩
    · next small =>
      have quotient : n / base < 2 ^ fuel := by
        rw [Nat.div_lt_iff_lt_mul (by omega)]
        calc n < 2 ^ (fuel + 1) := enough
          _ = 2 ^ fuel * 2 := Nat.pow_succ ..
          _ ≤ 2 ^ fuel * base := Nat.mul_le_mul_left _ large
      obtain ⟨lower, upper⟩ := ih quotient
      constructor
      · intro _
        have positive : 0 < n / base := Nat.div_pos (by omega) (by omega)
        calc base ^ (divisions base fuel (n / base) + 1)
            = base ^ divisions base fuel (n / base) * base := Nat.pow_succ ..
          _ ≤ n / base * base := Nat.mul_le_mul_right _ (lower positive)
          _ ≤ n := Nat.div_mul_le_self n base
      · rw [Nat.pow_succ]
        exact (Nat.div_lt_iff_lt_mul (by omega)).mp upper

theorem wholeLog_spec {base n : Nat} (large : 2 ≤ base) (positive : 0 < n) :
    base ^ wholeLog base n ≤ n ∧ n < base ^ (wholeLog base n + 1) := by
  obtain ⟨lower, upper⟩ := divisions_spec large (Nat.lt_log2_self (n := n))
  exact ⟨lower positive, upper⟩

/-- The quotient of the leading powers is off by at most one. -/
theorem estimate_spec {base : Nat} (large : 2 ≤ base) {q : ℚ} (positive : 0 < q) :
    power base ((wholeLog base q.num.natAbs : Int) - (wholeLog base q.den : Int) - 1) ≤ q ∧
      q < power base ((wholeLog base q.num.natAbs : Int) - (wholeLog base q.den : Int) + 1) := by
  have base_ne : (base : ℚ) ≠ 0 := by exact_mod_cast (by omega : base ≠ 0)
  have base_pos : (0 : ℚ) < base := by exact_mod_cast (by omega : 0 < base)
  have den_pos : (0 : ℚ) < q.den := by exact_mod_cast q.den_pos
  have num_pos : 0 < q.num.natAbs := Int.natAbs_pos.mpr (Rat.num_pos.mpr positive).ne'
  obtain ⟨num_low, num_high⟩ := wholeLog_spec large num_pos
  obtain ⟨den_low, den_high⟩ := wholeLog_spec large q.den_pos
  have value : q = (q.num.natAbs : ℚ) / q.den := by
    rw [Nat.cast_natAbs, abs_of_pos (Rat.num_pos.mpr positive), Rat.num_div_den]
  generalize wholeLog base q.num.natAbs = a at num_low num_high ⊢
  generalize wholeLog base q.den = d at den_low den_high ⊢
  have num_low' : (base : ℚ) ^ (a : Int) ≤ q.num.natAbs := by exact_mod_cast num_low
  have num_high' : (q.num.natAbs : ℚ) < (base : ℚ) ^ ((a : Int) + 1) := by exact_mod_cast num_high
  have den_low' : (base : ℚ) ^ (d : Int) ≤ q.den := by exact_mod_cast den_low
  have den_high' : (q.den : ℚ) < (base : ℚ) ^ ((d : Int) + 1) := by exact_mod_cast den_high
  rw [power_eq_zpow, power_eq_zpow]
  constructor
  · rw [value, le_div_iff₀ den_pos]
    calc (base : ℚ) ^ ((a : Int) - d - 1) * q.den
        ≤ (base : ℚ) ^ ((a : Int) - d - 1) * (base : ℚ) ^ ((d : Int) + 1) :=
          mul_le_mul_of_nonneg_left den_high'.le (zpow_pos base_pos _).le
      _ = (base : ℚ) ^ (a : Int) := by rw [← zpow_add₀ base_ne]; congr 1; ring
      _ ≤ q.num.natAbs := num_low'
  · rw [value, div_lt_iff₀ den_pos]
    calc (q.num.natAbs : ℚ) < (base : ℚ) ^ ((a : Int) + 1) := num_high'
      _ = (base : ℚ) ^ ((a : Int) - d + 1) * (base : ℚ) ^ (d : Int) := by
          rw [← zpow_add₀ base_ne]; congr 1; ring
      _ ≤ (base : ℚ) ^ ((a : Int) - d + 1) * q.den :=
          mul_le_mul_of_nonneg_left den_low' (zpow_pos base_pos _).le

/-- A positive number lies between the power of its logarithm and the next one. -/
theorem floorLog_spec {base : Nat} (large : 2 ≤ base) {q : ℚ} (positive : 0 < q) :
    power base (floorLog base q) ≤ q ∧ q < power base (floorLog base q + 1) := by
  obtain ⟨lower, upper⟩ := estimate_spec large positive
  rw [floorLog]
  split
  · next reached => exact ⟨reached, upper⟩
  · next missed =>
    rw [Int.sub_add_cancel]
    exact ⟨lower, not_le.mp missed⟩

/-! Whole numbers -/

theorem le_roundEven {q : ℚ} {n : Int} (le : (n : ℚ) ≤ q) : n ≤ roundEven q := by
  have below : n ≤ q.floor := Rat.le_floor_iff.mpr le
  rw [roundEven]
  split
  · exact below
  · split <;> omega

theorem roundEven_le {q : ℚ} {n : Int} (lt : q < n) : roundEven q ≤ n := by
  have below : q.floor < n := Rat.floor_lt_iff.mpr lt
  rw [roundEven]
  split
  · omega
  · split <;> omega

/-! Formats -/

namespace Format

/-- The magnitudes of a format: as many significant bits as the precision allows, in the range of exponents. -/
def Holds (format : Format) (magnitude : ℚ) : Prop :=
  ∃ (significand : Nat) (exponent : Int), significand < 2 ^ format.precision ∧ format.lowest ≤ exponent ∧
    exponent ≤ format.limit - format.precision ∧ magnitude = significand * power 2 exponent

variable {format : Format} {q : ℚ}

theorem unit_ge_lowest (format : Format) (q : ℚ) : format.lowest ≤ format.unit q := Int.le_max_right ..

theorem power_two_pos (exponent : Int) : 0 < power 2 exponent := power_pos (Nat.le_refl 2) exponent

theorem power_two_add (a b : Int) : power 2 (a + b) = power 2 a * power 2 b := power_add (Nat.le_refl 2) a b

theorem power_two_le {a b : Int} (le : a ≤ b) : power 2 a ≤ power 2 b := power_le (Nat.le_refl 2) le

theorem lt_of_power_two_lt {a b : Int} (lt : power 2 a < power 2 b) : a < b := lt_of_power_lt (Nat.le_refl 2) lt

theorem power_two_natCast (n : Nat) : power 2 (n : Int) = ((2 ^ n : Nat) : ℚ) := power_natCast 2 n

/-- The scaled magnitude has no more whole bits than the precision. -/
theorem scaled_lt (positive : 0 < q) : q / power 2 (format.unit q) < power 2 format.precision := by
  rw [div_lt_iff₀ (power_two_pos _), ← power_two_add]
  refine (floorLog_spec (by norm_num) positive).2.trans_le (power_two_le ?_)
  have unit_ge : floorLog 2 q - (format.precision : Int) + 1 ≤ format.unit q := Int.le_max_left ..
  omega

/-- Unless the least exponent is in use, the scaled magnitude has as many whole bits as the precision. -/
theorem scaled_ge (positive : 0 < q) (normal : format.unit q ≠ format.lowest) :
    power 2 ((format.precision : Int) - 1) ≤ q / power 2 (format.unit q) := by
  rw [le_div_iff₀ (power_two_pos _), ← power_two_add]
  refine (power_two_le ?_).trans (floorLog_spec (by norm_num) positive).1
  simp only [unit] at normal ⊢
  omega

/-- A format in which the least exponent may have a full significand. -/
def Proper (format : Format) : Prop := 1 ≤ format.precision ∧ format.lowest ≤ format.limit - format.precision

/-- A rounded magnitude below the limit is one of the format. -/
theorem holds_round (proper : format.Proper) (nonneg : 0 ≤ q) (small : format.round q < power 2 format.limit) :
    format.Holds (format.round q) := by
  obtain ⟨bits, range⟩ := proper
  by_cases zero : q = 0
  · exact ⟨0, format.lowest, by positivity, le_refl _, range, by simp [round, zero]⟩
  have positive : 0 < q := lt_of_le_of_ne nonneg (Ne.symm zero)
  have value : format.round q = (roundEven (q / power 2 (format.unit q)) : ℚ) * power 2 (format.unit q) := by
    rw [round, if_neg zero]
  have upper : roundEven (q / power 2 (format.unit q)) ≤ ((2 ^ format.precision : Nat) : Int) :=
    roundEven_le (by simpa [power_two_natCast] using scaled_lt positive)
  have lower : 0 ≤ roundEven (q / power 2 (format.unit q)) :=
    le_roundEven (by simpa using div_nonneg nonneg (power_two_pos (format.unit q)).le)
  obtain ⟨n, rounded⟩ := Int.eq_ofNat_of_zero_le lower
  rw [rounded] at value upper
  rw [value] at small ⊢
  have leading : ((2 ^ (format.precision - 1) : Nat) : ℚ) = power 2 ((format.precision : Int) - 1) := by
    rw [← power_two_natCast]
    congr 1
    omega
  obtain below | full := Nat.lt_or_eq_of_le (Int.ofNat_le.mp upper)
  · refine ⟨n, format.unit q, below, unit_ge_lowest .., ?_, rfl⟩
    by_cases normal : format.unit q = format.lowest
    · omega
    · have enough : ((2 ^ (format.precision - 1) : Nat) : Int) ≤ n := by
        rw [← rounded]
        refine le_roundEven ?_
        rw [Int.cast_natCast, leading]
        exact scaled_ge positive normal
      have exponent : (format.precision : Int) - 1 + format.unit q < format.limit := by
        refine lt_of_power_two_lt (lt_of_le_of_lt ?_ small)
        rw [power_two_add, ← leading]
        exact mul_le_mul_of_nonneg_right (by exact_mod_cast enough) (power_two_pos _).le
      omega
  · -- Rounding up has filled the significand: the same magnitude is half of it at the next exponent.
    subst full
    have exponent : (format.precision : Int) + format.unit q < format.limit := by
      refine lt_of_power_two_lt ?_
      rw [power_two_add, power_two_natCast]
      exact_mod_cast small
    refine ⟨2 ^ (format.precision - 1), format.unit q + 1, Nat.pow_lt_pow_right (by norm_num) (by omega), ?_, ?_, ?_⟩
    · have := format.unit_ge_lowest q
      omega
    · omega
    · rw [leading, ← power_two_add, Int.cast_natCast, ← power_two_natCast, ← power_two_add]
      congr 1
      omega

/-- What is made to fit a format is an infinity or a magnitude of the format. -/
theorem fit_cases (proper : format.Proper) (negative : Bool) (nonneg : 0 ≤ q) :
    format.fit negative q = .infinite negative ∨
      ∃ magnitude, format.fit negative q = .finite negative magnitude ∧ format.Holds magnitude := by
  rw [fit]
  split
  · exact .inl rfl
  · next small => exact .inr ⟨_, rfl, holds_round proper nonneg (not_le.mp small)⟩

theorem Holds.nonneg {magnitude : ℚ} (holds : format.Holds magnitude) : 0 ≤ magnitude := by
  obtain ⟨significand, exponent, _, _, _, rfl⟩ := holds
  exact mul_nonneg (Nat.cast_nonneg _) (power_two_pos _).le

theorem single_proper : single.Proper := by
  constructor <;> decide

theorem double_proper : double.Proper := by
  constructor <;> decide

end Format

end Corvid
