import Corvid.Number.Decimal
import Corvid.Number.Shortest
import Corvid.Proofs.Number.Rounding
import Mathlib.Tactic.FieldSimp
import Mathlib.Tactic.NormNum

/-!
How far rounding goes. It moves a magnitude by at most half a unit of its last place, so a magnitude of a format is
what everything within a quarter of its unit is rounded to. Nine decimal digits, read in double precision, are much
closer than that to a magnitude of single precision: they are read back as that magnitude.
-/
namespace Corvid

/-! Whole numbers -/

theorem abs_roundEven_sub_le (q : ℚ) : |(roundEven q : ℚ) - q| ≤ 1 / 2 := by
  have below : (q.floor : ℚ) ≤ q := Rat.le_floor_iff.mp (Int.le_refl _)
  have above : q < q.floor + 1 := by
    have next : q < ((q.floor + 1 : Int) : ℚ) := Rat.floor_lt_iff.mp (Int.lt_succ _)
    simpa using next
  rw [abs_le, roundEven]
  split
  · constructor <;> linarith
  · split
    · push_cast
      constructor <;> linarith
    · have half : q - q.floor = 1 / 2 := by linarith
      obtain even | odd := Int.emod_two_eq_zero_or_one q.floor
      · rw [even]
        constructor <;> push_cast <;> linarith
      · rw [odd]
        constructor <;> push_cast <;> linarith

/-- Rounding to multiples of a scale is off by at most half of it. -/
theorem abs_roundEven_mul_sub_le {scale : ℚ} (positive : 0 < scale) (q : ℚ) :
    |(roundEven (q / scale) : ℚ) * scale - q| ≤ scale / 2 := by
  have split : (roundEven (q / scale) : ℚ) * scale - q = ((roundEven (q / scale) : ℚ) - q / scale) * scale := by
    field_simp
  rw [split, abs_mul, abs_of_pos positive]
  calc _ ≤ 1 / 2 * scale := mul_le_mul_of_nonneg_right (abs_roundEven_sub_le _) positive.le
    _ = scale / 2 := by ring

theorem roundEven_eq_of_near {q : ℚ} {n : Int} (near : |q - n| < 1 / 2) : roundEven q = n := by
  have rounded := abs_roundEven_sub_le q
  rw [abs_le] at rounded
  rw [abs_lt] at near
  have upper : ((roundEven q : Int) : ℚ) < ((n + 1 : Int) : ℚ) := by
    push_cast
    linarith
  have lower : ((n - 1 : Int) : ℚ) < ((roundEven q : Int) : ℚ) := by
    push_cast
    linarith
  have := Int.cast_lt.mp upper
  have := Int.cast_lt.mp lower
  omega

/-! Formats -/

namespace Format

variable {format : Format} {q : ℚ}

theorem abs_round_sub_le (format : Format) (q : ℚ) : |format.round q - q| ≤ power 2 (format.unit q) / 2 := by
  by_cases zero : q = 0
  · rw [round, if_pos zero, zero, sub_zero, abs_zero]
    exact (half_pos (power_two_pos _)).le
  · rw [round, if_neg zero]
    exact abs_roundEven_mul_sub_le (power_two_pos _) q

/-- A magnitude of a format is a multiple of its unit. -/
theorem Holds.exists_units {magnitude : ℚ} (holds : format.Holds magnitude) (positive : 0 < magnitude) :
    ∃ n : Nat, 1 ≤ n ∧ magnitude = n * power 2 (format.unit magnitude) := by
  obtain ⟨significand, exponent, short, low, _, value⟩ := holds
  have leading : floorLog 2 magnitude < format.precision + exponent := by
    refine lt_of_power_two_lt ((floorLog_spec (Nat.le_refl 2) positive).1.trans_lt ?_)
    rw [value, power_two_add, power_two_natCast]
    exact mul_lt_mul_of_pos_right (by exact_mod_cast short) (power_two_pos _)
  have le : format.unit magnitude ≤ exponent := by
    simp only [unit]
    omega
  have shift : power 2 exponent = ((2 ^ (exponent - format.unit magnitude).toNat : Nat) : ℚ) *
      power 2 (format.unit magnitude) := by
    rw [← power_two_natCast, ← power_two_add]
    congr 1
    omega
  refine ⟨significand * 2 ^ (exponent - format.unit magnitude).toNat, ?_, ?_⟩
  · refine Nat.one_le_iff_ne_zero.mpr (Nat.mul_ne_zero ?_ (by positivity))
    rintro rfl
    simp [value] at positive
  · nth_rewrite 1 [value]
    rw [shift]
    push_cast
    ring

/-- The next power of two is at least a unit away. -/
theorem Holds.add_unit_le {magnitude : ℚ} (holds : format.Holds magnitude) (positive : 0 < magnitude) :
    magnitude + power 2 (format.unit magnitude) ≤ power 2 (floorLog 2 magnitude + 1) := by
  obtain ⟨n, one, value⟩ := holds.exists_units positive
  have unit_pos := power_two_pos (format.unit magnitude)
  have upper := (floorLog_spec (Nat.le_refl 2) positive).2
  have le : format.unit magnitude < floorLog 2 magnitude + 1 := by
    refine lt_of_power_two_lt (lt_of_le_of_lt ?_ upper)
    nth_rewrite 2 [value]
    exact le_mul_of_one_le_left unit_pos.le (by exact_mod_cast one)
  have shift : power 2 (floorLog 2 magnitude + 1) =
      ((2 ^ (floorLog 2 magnitude + 1 - format.unit magnitude).toNat : Nat) : ℚ) * power 2 (format.unit magnitude) := by
    rw [← power_two_natCast, ← power_two_add]
    congr 1
    omega
  rw [shift] at upper ⊢
  nth_rewrite 1 [value] at upper
  have fewer : n < 2 ^ (floorLog 2 magnitude + 1 - format.unit magnitude).toNat := by
    exact_mod_cast lt_of_mul_lt_mul_right upper unit_pos.le
  calc magnitude + power 2 (format.unit magnitude) = ((n + 1 : Nat) : ℚ) * power 2 (format.unit magnitude) := by
        nth_rewrite 1 [value]
        push_cast
        ring
    _ ≤ _ := mul_le_mul_of_nonneg_right (by exact_mod_cast fewer) unit_pos.le

/-- The unit of what is close to a magnitude of a format is the same, or half of it right below a power of two. -/
theorem unit_of_near (proper : format.Proper) {magnitude x : ℚ} (holds : format.Holds magnitude)
    (positive : 0 < magnitude) (near : |x - magnitude| < power 2 (format.unit magnitude) / 4) :
    0 < x ∧ format.unit x ≤ format.unit magnitude ∧ format.unit magnitude ≤ format.unit x + 1 := by
  obtain ⟨n, one, value⟩ := holds.exists_units positive
  have unit_pos := power_two_pos (format.unit magnitude)
  have next := holds.add_unit_le positive
  obtain ⟨below, above⟩ := abs_lt.mp near
  have unit_le : power 2 (format.unit magnitude) ≤ magnitude := by
    nth_rewrite 2 [value]
    exact le_mul_of_one_le_left unit_pos.le (by exact_mod_cast one)
  have x_pos : 0 < x := by linarith
  obtain ⟨lower, upper⟩ := floorLog_spec (Nat.le_refl 2) x_pos
  have log_le : floorLog 2 x < floorLog 2 magnitude + 1 := lt_of_power_two_lt (by linarith)
  refine ⟨x_pos, ?_, ?_⟩
  · simp only [unit]
    omega
  · by_cases least : format.unit magnitude = format.lowest
    · have := format.unit_ge_lowest x
      omega
    · have normal : format.unit magnitude = floorLog 2 magnitude - format.precision + 1 := by
        simp only [unit] at least ⊢
        omega
      have bits := proper.1
      have leading := (floorLog_spec (Nat.le_refl 2) positive).1
      have smaller : power 2 (format.unit magnitude) ≤ power 2 (floorLog 2 magnitude) := power_two_le (by omega)
      have double : power 2 (floorLog 2 magnitude) = 2 * power 2 (floorLog 2 magnitude - 1) := by
        have two : (2 : ℚ) = power 2 1 := by simp [power]
        rw [two, ← power_two_add]
        congr 1
        omega
      have half_pos := power_two_pos (floorLog 2 magnitude - 1)
      have log_ge : floorLog 2 magnitude - 1 < floorLog 2 x + 1 := lt_of_power_two_lt (by linarith)
      have unit_ge : floorLog 2 x - (format.precision : Int) + 1 ≤ format.unit x := Int.le_max_left ..
      omega

/-- What is closer to a magnitude of a format than a quarter of its unit is rounded to it. -/
theorem round_eq_of_near (proper : format.Proper) {magnitude x : ℚ} (holds : format.Holds magnitude)
    (positive : 0 < magnitude) (near : |x - magnitude| < power 2 (format.unit magnitude) / 4) :
    format.round x = magnitude := by
  obtain ⟨n, _, value⟩ := holds.exists_units positive
  obtain ⟨x_pos, le, ge⟩ := unit_of_near proper holds positive near
  have scale := power_two_pos (format.unit x)
  -- the magnitude is a multiple of the unit of what is rounded, too
  obtain ⟨factor, small, shift⟩ : ∃ factor : Nat, factor ≤ 2 ∧
      power 2 (format.unit magnitude) = factor * power 2 (format.unit x) := by
    obtain same | half : format.unit magnitude = format.unit x ∨ format.unit magnitude = 1 + format.unit x := by omega
    · exact ⟨1, by norm_num, by rw [same, Nat.cast_one, one_mul]⟩
    · exact ⟨2, le_refl 2, by rw [half, power_two_add]; simp [power]⟩
  have multiple : magnitude = ((n * factor : Nat) : ℚ) * power 2 (format.unit x) := by
    rw [value, shift]
    push_cast
    ring
  have rounded : roundEven (x / power 2 (format.unit x)) = ((n * factor : Nat) : Int) := by
    apply roundEven_eq_of_near
    have close : x / power 2 (format.unit x) - ((n * factor : Nat) : Int) =
        (x - magnitude) / power 2 (format.unit x) := by
      rw [multiple]
      push_cast
      field_simp
    rw [close, abs_div, abs_of_pos scale, div_lt_iff₀ scale]
    have at_most : (factor : ℚ) * power 2 (format.unit x) ≤ 2 * power 2 (format.unit x) :=
      mul_le_mul_of_nonneg_right (by exact_mod_cast small) scale.le
    rw [shift] at near
    linarith
  rw [round, if_neg x_pos.ne']
  dsimp only
  rw [rounded, Int.cast_natCast, ← multiple]

end Format

/-! Decimals -/

namespace Scientific

open Format

variable {q : ℚ}

/-- The whole number of which a rounded magnitude has the digits. -/
theorem roundEven_scaled (places : Nat) (positive : 0 < q) :
    ((10 ^ places : Nat) : Int) ≤ roundEven (q / power 10 (floorLog 10 q - places)) ∧
      roundEven (q / power 10 (floorLog 10 q - places)) ≤ ((10 ^ (places + 1) : Nat) : Int) := by
  obtain ⟨lower, upper⟩ := floorLog_spec (by norm_num : 2 ≤ 10) positive
  have scale := power_pos (by norm_num : 2 ≤ 10) (floorLog 10 q - places)
  constructor
  · apply le_roundEven
    have sum : (places : Int) + (floorLog 10 q - places) = floorLog 10 q := by omega
    rw [Int.cast_natCast, ← power_natCast, le_div_iff₀ scale, ← power_add (by norm_num), sum]
    exact lower
  · apply roundEven_le
    have sum : ((places + 1 : Nat) : Int) + (floorLog 10 q - places) = floorLog 10 q + 1 := by omega
    rw [Int.cast_natCast, ← power_natCast, div_lt_iff₀ scale, ← power_add (by norm_num), sum]
    exact upper

/-- A form that has exactly one digit before the point, and that not a zero. -/
def Normal (number : Scientific) : Prop :=
  10 ^ number.places ≤ number.coefficient ∧ number.coefficient < 10 ^ (number.places + 1)

theorem ofRat_normal (places : Nat) (positive : 0 < q) : (ofRat places q).Normal := by
  obtain ⟨lower, upper⟩ := roundEven_scaled places positive
  rw [ofRat]
  split
  · exact ⟨le_refl _, Nat.pow_lt_pow_right (by norm_num) (Nat.lt_succ_self _)⟩
  · next other =>
    change _ ≠ 10 ^ (places + 1) at other
    constructor <;> dsimp only <;> omega

theorem ofRat_magnitude (places : Nat) (positive : 0 < q) : (ofRat places q).magnitude =
    (roundEven (q / power 10 (floorLog 10 q - places)) : ℚ) * power 10 (floorLog 10 q - places) := by
  obtain ⟨lower, upper⟩ := roundEven_scaled places positive
  have whole : (((roundEven (q / power 10 (floorLog 10 q - places))).toNat : Nat) : ℚ) =
      (roundEven (q / power 10 (floorLog 10 q - places)) : ℚ) := by
    have same : ((roundEven (q / power 10 (floorLog 10 q - places))).toNat : Int) =
        roundEven (q / power 10 (floorLog 10 q - places)) := by omega
    exact_mod_cast congrArg (Int.cast (R := ℚ)) same
  rw [ofRat]
  split
  · next full =>
    rw [magnitude, ← whole, full]
    change ((10 ^ places : Nat) : ℚ) * _ = ((10 ^ (places + 1) : Nat) : ℚ) * _
    rw [← power_natCast, ← power_natCast, ← power_add (by norm_num), ← power_add (by norm_num)]
    congr 1
    push_cast
    ring
  · rw [magnitude, whole]

/-- Rounding to some places is off by at most half a unit of the last one. -/
theorem abs_ofRat_sub_le (places : Nat) (positive : 0 < q) :
    |(ofRat places q).magnitude - q| ≤ power 10 (floorLog 10 q - places) / 2 := by
  rw [ofRat_magnitude places positive]
  exact abs_roundEven_mul_sub_le (power_pos (by norm_num) _) q

/-- However few places there are, the order of magnitude is kept. -/
theorem ofRat_between (places : Nat) (positive : 0 < q) :
    q / 2 ≤ (ofRat places q).magnitude ∧ (ofRat places q).magnitude ≤ 2 * q := by
  have near := abs_le.mp (abs_ofRat_sub_le places positive)
  have leading := (floorLog_spec (by norm_num : 2 ≤ 10) positive).1
  have finer : power 10 (floorLog 10 q - places) ≤ power 10 (floorLog 10 q) := power_le (by norm_num) (by omega)
  constructor <;> linarith

/-- Nine digits of a magnitude of single precision are off by less than a tenth of its unit. -/
theorem abs_nine_digits_sub_lt (positive : 0 < q) :
    |(ofRat mostPlaces q).magnitude - q| < power 2 (single.unit q) / 10 := by
  have near := abs_ofRat_sub_le mostPlaces positive
  have leading := (floorLog_spec (by norm_num : 2 ≤ 10) positive).1
  have bits : q / power 2 (single.unit q) < power 2 single.precision := scaled_lt positive
  rw [div_lt_iff₀ (power_two_pos _)] at bits
  have digits : power 10 (floorLog 10 q) = 10 ^ 8 * power 10 (floorLog 10 q - mostPlaces) := by
    have eight : (10 ^ 8 : ℚ) = power 10 (mostPlaces : Int) := by
      rw [power_natCast]
      norm_num [mostPlaces]
    rw [eight, ← power_add (by norm_num)]
    congr 1
    omega
  have significand : power 2 (single.precision : Int) = 2 ^ 24 := by
    rw [power_natCast]
    norm_num [single]
  rw [significand] at bits
  rw [digits] at leading
  have unit_pos := power_two_pos (single.unit q)
  linarith

/-- Nine digits of a magnitude of single precision, read in double precision, are read back as that magnitude. -/
theorem round_nine_digits (holds : single.Holds q) (positive : 0 < q) :
    single.round (double.round (ofRat mostPlaces q).magnitude) = q := by
  have near := abs_nine_digits_sub_lt positive
  have unit_pos := power_two_pos (single.unit q)
  have bits : q / power 2 (single.unit q) < power 2 single.precision := scaled_lt positive
  rw [div_lt_iff₀ (power_two_pos _), ← power_two_add] at bits
  have digits_pos := (half_pos positive).trans_le (ofRat_between mostPlaces positive).1
  generalize (ofRat mostPlaces q).magnitude = digits at near digits_pos ⊢
  -- the unit of a double is smaller by 29 bits; four of them are enough here
  have log_lt : floorLog 2 digits < single.precision + single.unit q + 1 := by
    have coarser : power 2 (single.unit q) ≤ power 2 (single.precision + single.unit q) := power_two_le (by omega)
    have double : power 2 (single.precision + single.unit q + 1) = 2 * power 2 (single.precision + single.unit q) := by
      rw [power_two_add, mul_comm]
      simp [power]
    have above := (abs_lt.mp near).2
    exact lt_of_power_two_lt ((floorLog_spec (Nat.le_refl 2) digits_pos).1.trans_lt (by linarith))
  have unit_le : double.unit digits ≤ single.unit q - 4 := by
    have low : -149 ≤ single.unit q := single.unit_ge_lowest q
    have bits : single.precision = 24 := rfl
    have bits' : double.precision = 53 := rfl
    have low' : double.lowest = -1074 := rfl
    exact Int.max_le.mpr ⟨by omega, by omega⟩
  have fine : power 2 (double.unit digits) ≤ power 2 (single.unit q) / 10 := by
    have sixteen : power 2 (single.unit q) = 16 * power 2 (single.unit q - 4) := by
      have four : (16 : ℚ) = power 2 4 := by norm_num [power_eq_zpow]
      rw [four, ← power_two_add]
      congr 1
      omega
    have smaller := power_two_le unit_le
    have rest_pos := power_two_pos (single.unit q - 4)
    linarith
  have read := double.abs_round_sub_le digits
  apply round_eq_of_near single_proper holds positive
  calc |double.round digits - q| ≤ |double.round digits - digits| + |digits - q| := abs_sub_le _ _ _
    _ < power 2 (single.unit q) / 4 := by linarith

/-- The shortest form is a rounded magnitude that is read back. -/
theorem shortest_spec (holds : single.Holds q) (positive : 0 < q) :
    ∃ places, shortest q = ofRat places q ∧ single.round (double.round (ofRat places q).magnitude) = q := by
  rw [shortest]
  cases found : ((List.range (mostPlaces + 1)).map (ofRat · q)).find? (readsBack q) with
  | none => exact ⟨mostPlaces, rfl, round_nine_digits holds positive⟩
  | some number =>
    obtain ⟨places, _, rfl⟩ := List.mem_map.mp (List.mem_of_find?_eq_some found)
    have reads := List.find?_some found
    simp only [readsBack, Bool.and_eq_true, decide_eq_true_eq] at reads
    exact ⟨places, rfl, reads.2⟩

end Scientific

/-- The magnitudes of single precision lie between the least and the first that is too large. -/
theorem Format.Holds.range {q : ℚ} (holds : Format.single.Holds q) (positive : 0 < q) :
    power 2 (-149) ≤ q ∧ q < power 2 128 := by
  constructor
  · obtain ⟨n, one, value⟩ := holds.exists_units positive
    have unit_pos := Format.power_two_pos (Format.single.unit q)
    calc power 2 (-149) ≤ power 2 (Format.single.unit q) := Format.power_two_le (Format.single.unit_ge_lowest q)
      _ ≤ n * power 2 (Format.single.unit q) := le_mul_of_one_le_left unit_pos.le (by exact_mod_cast one)
      _ = q := value.symm
  · obtain ⟨significand, exponent, short, _, high, rfl⟩ := holds
    calc (significand : ℚ) * power 2 exponent < power 2 24 * power 2 exponent := by
          have full : power 2 24 = ((2 ^ 24 : Nat) : ℚ) := power_natCast 2 24
          rw [full]
          exact mul_lt_mul_of_pos_right (by exact_mod_cast short) (Format.power_two_pos _)
      _ = power 2 (24 + exponent) := (Format.power_two_add ..).symm
      _ ≤ power 2 128 := Format.power_two_le (by change exponent ≤ 104 at high; omega)

namespace Decimal

open Format

variable {decimal : Decimal}

/-- The leading power of ten that is looked at before a decimal is computed. -/
theorem leading_spec (positive : 0 < decimal.magnitude) : decimal.coefficient ≠ 0 ∧
    power 10 ((wholeLog 10 decimal.coefficient : Int) + decimal.exponent) ≤ decimal.magnitude ∧
      decimal.magnitude < power 10 ((wholeLog 10 decimal.coefficient : Int) + decimal.exponent + 1) := by
  have filled : decimal.coefficient ≠ 0 := by
    intro zero
    simp [magnitude, zero] at positive
  obtain ⟨lower, upper⟩ := wholeLog_spec (by norm_num : 2 ≤ 10) (Nat.pos_of_ne_zero filled)
  have scale := power_pos (by norm_num : 2 ≤ 10) decimal.exponent
  have next : (wholeLog 10 decimal.coefficient : Int) + decimal.exponent + 1 =
      ((wholeLog 10 decimal.coefficient + 1 : Nat) : Int) + decimal.exponent := by omega
  refine ⟨filled, ?_, ?_⟩
  · rw [power_add (by norm_num), power_natCast, magnitude]
    exact mul_le_mul_of_nonneg_right (by exact_mod_cast lower) scale.le
  · rw [next, power_add (by norm_num), power_natCast, magnitude]
    exact mul_lt_mul_of_pos_right (by exact_mod_cast upper) scale

/-- A decimal of the order of single precision is computed, and it is finite in double precision. -/
theorem toNumber_double (lower : power 2 (-150) ≤ decimal.magnitude) (upper : decimal.magnitude < power 2 129) :
    decimal.toNumber .double = .finite decimal.negative (double.round decimal.magnitude) := by
  have positive := (power_two_pos (-150)).trans_le lower
  obtain ⟨filled, leading, next⟩ := leading_spec positive
  have not_low : -60 < (wholeLog 10 decimal.coefficient : Int) + decimal.exponent + 1 := by
    have least : power 10 (-60) ≤ power 2 (-150) := by norm_num [power_eq_zpow]
    exact lt_of_power_lt (by norm_num : 2 ≤ 10) (by linarith)
  have not_high : (wholeLog 10 decimal.coefficient : Int) + decimal.exponent < 60 := by
    have greatest : power 2 129 ≤ power 10 60 := by norm_num [power_eq_zpow]
    exact lt_of_power_lt (by norm_num : 2 ≤ 10) (by linarith)
  have finite : double.round decimal.magnitude < power 2 double.limit := by
    have near := (abs_le.mp (double.abs_round_sub_le decimal.magnitude)).2
    have log_lt : floorLog 2 decimal.magnitude < 129 :=
      lt_of_power_two_lt ((floorLog_spec (Nat.le_refl 2) positive).1.trans_lt upper)
    have unit_le : double.unit decimal.magnitude ≤ 129 := by
      have bits : double.precision = 53 := rfl
      have low : double.lowest = -1074 := rfl
      exact Int.max_le.mpr ⟨by omega, by omega⟩
    have smaller := power_two_le unit_le
    have huge : 2 * power 2 129 ≤ power 2 double.limit := by
      have next : 2 * power 2 129 = power 2 130 := by norm_num [power_eq_zpow]
      rw [next]
      exact power_two_le (by decide)
    have some_pos := power_two_pos 129
    linarith
  have near : ¬((wholeLog 10 decimal.coefficient : Int) + decimal.exponent < -horizon) := by
    unfold horizon
    omega
  have near' : ¬(horizon < (wholeLog 10 decimal.coefficient : Int) + decimal.exponent) := by
    unfold horizon
    omega
  rw [toNumber, if_neg (by simp [filled, near]), if_neg near', fit, if_neg (not_le.mpr finite)]

/-- A decimal that is read back as a magnitude of single precision is a literal of that number. -/
theorem settle_of_reads {q : ℚ} (holds : single.Holds q) (positive : 0 < q)
    (between : q / 2 ≤ decimal.magnitude ∧ decimal.magnitude ≤ 2 * q)
    (reads : single.round (double.round decimal.magnitude) = q) :
    (decimal.toNumber .double).roundTo .single = .finite decimal.negative q := by
  obtain ⟨lower, upper⟩ := holds.range positive
  have half : power 2 (-149) = 2 * power 2 (-150) := by norm_num [power_eq_zpow]
  have twice : power 2 129 = 2 * power 2 128 := by norm_num [power_eq_zpow]
  have finite : q < power 2 single.limit := upper
  rw [toNumber_double (by linarith) (by linarith), Number.roundTo, fit, reads, if_neg (not_le.mpr finite)]

/-- A zero is read with its sign, however many digits and whatever exponent it is written with. -/
theorem settle_zero (zero : decimal.magnitude = 0) :
    (decimal.toNumber .double).roundTo .single = .finite decimal.negative 0 := by
  have none : decimal.coefficient = 0 := by
    simpa [magnitude, (power_pos (by norm_num : 2 ≤ 10) decimal.exponent).ne'] using zero
  have small : ¬power 2 single.limit ≤ 0 := not_le.mpr (power_two_pos _)
  have rounded : single.round 0 = 0 := rfl
  rw [toNumber, none, if_pos (by simp), Number.roundTo, fit, rounded, if_neg small]

end Decimal

end Corvid
