import Corvid.Proofs.Number.Interval
import Corvid.Proofs.Number.Literal
import Corvid.Proofs.Number.Text

/-!
Shortest decimals. Of the decimals with some number of digits only the nearest one is tried when a number is written. If
that one is not read back, no other of the same length is, with three exceptions: the intervals around powers of two are
lopsided, and for three of them the nearest decimal misses the short side while a farther one hits the long side. The
largest magnitude is a fourth exception, because what is above it is not tried at all.
-/
namespace Corvid

open Format

/-! Powers of two and powers of ten -/

theorem ten_pow_apart {n : Nat} (some : 0 < n) (few : n ≤ 46) (e : Nat) :
    1025 * 2 ^ e < 1024 * 10 ^ n ∨ 1025 * 10 ^ n < 1024 * 2 ^ e := by
  have checked : (List.range 46).all (fun n =>
      decide (1025 * 2 ^ (10 ^ (n + 1)).log2 < 1024 * 10 ^ (n + 1)) &&
        decide (1025 * 10 ^ (n + 1) < 1024 * 2 ^ ((10 ^ (n + 1)).log2 + 1))) = true := by decide +kernel
  have both := List.all_eq_true.mp checked (n - 1) (List.mem_range.mpr (by omega))
  rw [Nat.sub_add_cancel some, Bool.and_eq_true, decide_eq_true_eq, decide_eq_true_eq] at both
  obtain le | gt := Nat.lt_or_ge e ((10 ^ n).log2 + 1)
  · exact .inl ((Nat.mul_le_mul_left _ (Nat.pow_le_pow_right (by decide) (by omega))).trans_lt both.1)
  · exact .inr (both.2.trans_le (Nat.mul_le_mul_left _ (Nat.pow_le_pow_right (by decide) gt)))

/-- Apart from one itself no power of ten is within a thousandth of a power of two. -/
theorem power_ten_near {j e : Int} (low : -46 ≤ j) (high : j ≤ 46) (le : 1024 * power 10 j ≤ 1025 * power 2 e)
    (ge : 1024 * power 2 e ≤ 1025 * power 10 j) : j = 0 := by
  have above {j e : Int} (positive : 0 < j) (high : j ≤ 46) (le : 1024 * power 10 j ≤ 1025 * power 2 e)
      (ge : 1024 * power 2 e ≤ 1025 * power 10 j) : False := by
    obtain ⟨n, rfl⟩ := Int.eq_ofNat_of_zero_le positive.le
    have ten : power 10 1 ≤ power 10 (n : Int) := power_le (by norm_num) (by omega)
    have value : power 10 1 = 10 := by norm_num [power_eq_zpow]
    have whole : 0 ≤ e := by
      by_contra small
      have one : power 2 e ≤ power 2 0 := power_two_le (by omega)
      have unity : power 2 0 = 1 := by norm_num [power_eq_zpow]
      linarith
    obtain ⟨m, rfl⟩ := Int.eq_ofNat_of_zero_le whole
    rw [power_natCast, power_natCast] at le ge
    obtain apart | apart := ten_pow_apart (by omega : 0 < n) (by omega) m
    · exact apart.not_ge (by exact_mod_cast le)
    · exact apart.not_ge (by exact_mod_cast ge)
  obtain negative | zero | positive := lt_trichotomy j 0
  · -- the same for the reciprocals
    have inverse (base : Nat) (exponent : Int) : power base (-exponent) = (power base exponent)⁻¹ := by
      rw [power_eq_zpow, power_eq_zpow, zpow_neg]
    have ten_pos := power_pos (by norm_num : 2 ≤ 10) j
    have two_pos := power_two_pos e
    refine (above (j := -j) (e := -e) (by omega) (by omega) ?_ ?_).elim
    · rw [inverse, inverse, ← div_eq_mul_inv, ← div_eq_mul_inv, div_le_div_iff₀ ten_pos two_pos]
      exact ge
    · rw [inverse, inverse, ← div_eq_mul_inv, ← div_eq_mul_inv, div_le_div_iff₀ two_pos ten_pos]
      exact le
  · exact zero
  · exact (above positive high le ge).elim

/-- The multiples of a step around a magnitude, the lower of which is the nearer one, but farther away than about a
quarter of the last bit of a significand of 24 bits, while the upper one is nearer than about half of that bit. -/
structure Straddle (q step : ℚ) (f : Nat) : Prop where
  above : q < (f + 1) * step
  nearer : q - f * step ≤ (f + 1) * step - q
  far : 1023 * q ≤ 2 ^ 35 * (q - f * step)
  close : 2 ^ 34 * ((f + 1) * step - q) ≤ 1025 * q

/-- The same for whole numbers, with the multiples of `m` around `n`. -/
def straddles (n m : Nat) : Bool :=
  decide (2 * (n % m) ≤ m) && decide (1023 * n ≤ 2 ^ 35 * (n % m)) && decide (2 ^ 34 * (m - n % m) ≤ 1025 * n)

theorem straddles_large {k j : Nat} (k_lt : k < 128) (some : 0 < j) (few : j ≤ 46)
    (found : straddles (2 ^ k) (10 ^ j) = true) : k = 87 ∨ k = 90 := by
  have checked : (List.range 128).all (fun k => (List.range 46).all fun j =>
      !straddles (2 ^ k) (10 ^ (j + 1)) || (k == 87 || k == 90)) = true := by decide +kernel
  have row := List.all_eq_true.mp checked k (List.mem_range.mpr k_lt)
  have cell := List.all_eq_true.mp row (j - 1) (List.mem_range.mpr (by omega))
  rw [Nat.sub_add_cancel some, found] at cell
  simpa using cell

theorem straddles_small {k j : Nat} (k_lt : k < 126) (some : 0 < j) (few : j ≤ 46)
    (found : straddles (10 ^ j) (2 ^ k) = true) : k = 96 := by
  have checked : (List.range 126).all (fun k => (List.range 46).all fun j =>
      !straddles (10 ^ (j + 1)) (2 ^ k) || k == 96) = true := by decide +kernel
  have row := List.all_eq_true.mp checked k (List.mem_range.mpr k_lt)
  have cell := List.all_eq_true.mp row (j - 1) (List.mem_range.mpr (by omega))
  rw [Nat.sub_add_cancel some, found] at cell
  simpa using cell

/-- Only the ratio of the magnitude to the step matters. -/
theorem Straddle.straddles {q step : ℚ} {n m f : Nat} (straddle : Straddle q step f) (ratio : q * m = n * step)
    (step_pos : 0 < step) (m_pos : 0 < m) : straddles n m = true := by
  obtain ⟨above, nearer, far, close⟩ := straddle
  have m_pos' : (0 : ℚ) < m := by exact_mod_cast m_pos
  -- everything is in proportion
  have whole (x y : ℚ) : (x * q + y * step) * m = (x * n + y * m) * step := by
    rw [add_mul, mul_assoc, ratio]
    ring
  have transfer {x y : ℚ} (le : 0 ≤ x * q + y * step) : 0 ≤ x * n + y * m := by
    have scaled := mul_nonneg le m_pos'.le
    rw [whole] at scaled
    exact nonneg_of_mul_nonneg_left scaled step_pos
  have floor : n / m = f := by
    apply Nat.div_eq_of_lt_le
    · have le := transfer (x := 1) (y := -f) (by linarith)
      exact_mod_cast (by linarith : (f : ℚ) * m ≤ n)
    · have lt : (0 : ℚ) < (f + 1) * m - n := by
        have scaled := mul_pos (sub_pos.mpr above) m_pos'
        have same : ((f + 1) * step - q) * m = ((f + 1) * m - n) * step := by
          have := whole (-1) (f + 1)
          linarith
        rw [same] at scaled
        exact pos_of_mul_pos_left scaled step_pos.le
      have lt' : (n : ℚ) < ((f + 1 : Nat) : ℚ) * m := by
        push_cast
        linarith
      exact_mod_cast lt'
  have rest : ((n % m : Nat) : ℚ) = n - m * f := by
    have parts := Nat.div_add_mod n m
    rw [floor] at parts
    have : ((m * f + n % m : Nat) : ℚ) = n := by exact_mod_cast parts
    push_cast at this
    linarith
  have rest_lt := Nat.mod_lt n m_pos
  simp only [Corvid.straddles, Bool.and_eq_true, decide_eq_true_eq]
  refine ⟨⟨?_, ?_⟩, ?_⟩
  · have le := transfer (x := -2) (y := 2 * f + 1) (by linarith)
    exact_mod_cast (by rw [rest]; linarith : 2 * ((n % m : Nat) : ℚ) ≤ m)
  · have le := transfer (x := 2 ^ 35 - 1023) (y := -(2 ^ 35 * f)) (by linarith)
    exact_mod_cast (by rw [rest]; linarith : 1023 * (n : ℚ) ≤ 2 ^ 35 * ((n % m : Nat) : ℚ))
  · have le := transfer (x := 1025 + 2 ^ 34) (y := -(2 ^ 34 * (f + 1))) (by linarith)
    have cast : ((m - n % m : Nat) : ℚ) = m - ((n % m : Nat) : ℚ) := Nat.cast_sub rest_lt.le
    exact_mod_cast (by rw [cast, rest]; linarith : (2 ^ 34 : ℚ) * ((m - n % m : Nat) : ℚ) ≤ 1025 * (n : ℚ))

/-! The two decimals of some length around a magnitude -/

namespace Scientific

variable {q : ℚ}

/-- The nearest form is one of the two multiples of the last place around the magnitude. -/
theorem ofRat_neighbours (places : Nat) (positive : 0 < q) {step : ℚ}
    (last : step = power 10 (floorLog 10 q - places)) :
    ∃ f : Nat, 10 ^ places ≤ f ∧ f * step ≤ q ∧ q < (f + 1) * step ∧
      ((ofRat places q).magnitude = f * step ∧ q - f * step ≤ (f + 1) * step - q ∨
        (ofRat places q).magnitude = (f + 1) * step ∧ (f + 1) * step - q ≤ q - f * step) := by
  have step_pos : 0 < step := last ▸ power_pos (by norm_num) _
  have lower : ((10 ^ places : Nat) : ℚ) ≤ q / step := by
    have sum : (places : Int) + (floorLog 10 q - places) = floorLog 10 q := by omega
    rw [le_div_iff₀ step_pos, last, ← power_natCast, ← power_add (by norm_num), sum]
    exact (floorLog_spec (by norm_num) positive).1
  have below : ((q / step).floor : ℚ) ≤ q / step := Rat.le_floor_iff.mp (Int.le_refl _)
  have above : q / step < (((q / step).floor + 1 : Int) : ℚ) := Rat.floor_lt_iff.mp (Int.lt_succ _)
  have leading : ((10 ^ places : Nat) : Int) ≤ (q / step).floor := Rat.le_floor_iff.mpr (by exact_mod_cast lower)
  obtain ⟨f, floor⟩ := Int.eq_ofNat_of_zero_le ((Int.natCast_nonneg _).trans leading)
  rw [floor] at below above leading
  have rounded := ofRat_magnitude places positive
  rw [← last] at rounded
  have error := abs_roundEven_mul_sub_le step_pos q
  have low := le_roundEven below
  have high := roundEven_le above
  rw [le_div_iff₀ step_pos] at below
  rw [div_lt_iff₀ step_pos] at above
  push_cast at below above
  refine ⟨f, by exact_mod_cast leading, below, above, ?_⟩
  obtain down | up : roundEven (q / step) = f ∨ roundEven (q / step) = f + 1 := by omega
  · left
    rw [down] at rounded error
    rw [rounded]
    push_cast at error ⊢
    exact ⟨rfl, by linarith [(abs_le.mp error).1]⟩
  · right
    rw [up] at rounded error
    rw [rounded]
    push_cast at error ⊢
    exact ⟨rfl, by linarith [(abs_le.mp error).2]⟩

/-- No other decimal of the same length is between these two. -/
theorem neighbours_of_short {places f c : Nat} {t : Int} {step : ℚ} (positive : 0 < q)
    (last : step = power 10 (floorLog 10 q - places)) (above : q < (f + 1) * step)
    (short : c < 10 ^ (places + 1)) :
    c * power 10 t ≤ f * step ∨ (f + 1) * step ≤ c * power 10 t := by
  have ten : 2 ≤ 10 := by norm_num
  have step_pos : 0 < step := last ▸ power_pos ten _
  obtain coarse | fine := le_or_gt (floorLog 10 q - places) t
  · -- a multiple of the step
    obtain ⟨n, shift⟩ := Int.eq_ofNat_of_zero_le (sub_nonneg.mpr coarse)
    have value : (c : ℚ) * power 10 t = ((c * 10 ^ n : Nat) : ℚ) * step := by
      have sum : t = (n : Int) + (floorLog 10 q - places) := by omega
      rw [last, sum, power_add ten, power_natCast]
      push_cast
      ring
    rw [value]
    obtain le | ge : c * 10 ^ n ≤ f ∨ f + 1 ≤ c * 10 ^ n := by omega
    · exact .inl (mul_le_mul_of_nonneg_right (by exact_mod_cast le) step_pos.le)
    · exact .inr (mul_le_mul_of_nonneg_right (by exact_mod_cast ge) step_pos.le)
  · -- below the leading power of ten
    left
    have leading : power 10 (floorLog 10 q) ≤ f * step := by
      have sum : floorLog 10 q = (places : Int) + (floorLog 10 q - places) := by omega
      have lower := ((floorLog_spec ten positive).1).trans_lt above
      rw [sum, power_add ten, ← last, power_natCast] at lower ⊢
      have less : 10 ^ places < f + 1 := by exact_mod_cast lt_of_mul_lt_mul_right lower step_pos.le
      exact mul_le_mul_of_nonneg_right (by exact_mod_cast Nat.lt_succ_iff.mp less) step_pos.le
    calc (c : ℚ) * power 10 t ≤ power 10 ((places + 1 : Nat) : Int) * power 10 t := by
          rw [power_natCast]
          exact mul_le_mul_of_nonneg_right (by exact_mod_cast short.le) (power_pos ten t).le
      _ = power 10 ((places + 1 : Nat) + t) := (power_add ten _ _).symm
      _ ≤ power 10 (floorLog 10 q) := power_le ten (by omega)
      _ ≤ f * step := leading

end Scientific

/-! Which magnitudes the nearest decimal may miss -/

section Missed

variable {q step : ℚ} {j : Int} {f : Nat}

theorem not_multiple_between {n : Nat} (step_pos : 0 < step) (value : q = n * step) (below : f * step < q)
    (above : q < (f + 1) * step) : False := by
  rw [value] at below above
  have : f < n := by exact_mod_cast lt_of_mul_lt_mul_right below step_pos.le
  have : n < f + 1 := by exact_mod_cast lt_of_mul_lt_mul_right above step_pos.le
  omega

/-- Powers of ten about as large as a unit of single precision. -/
theorem exponent_bounds (holds : single.Holds q) (positive : 0 < q)
    (large : power 2 (single.unit q) / 4 ≤ power 10 j) (small : power 10 j ≤ 2 * power 2 (single.unit q)) :
    -46 ≤ j ∧ j ≤ 46 := by
  have ten : 2 ≤ 10 := by norm_num
  have least : power 2 (-149) ≤ power 2 (single.unit q) := power_two_le (single.unit_ge_lowest q)
  have most : power 2 (single.unit q) ≤ power 2 104 :=
    power_two_le (unit_le_last single_proper positive (holds.range positive).2)
  have lower : power 10 (-47) < power 2 (-149) / 4 := by norm_num [power_eq_zpow]
  have upper : 2 * power 2 104 < power 10 47 := by norm_num [power_eq_zpow]
  have := lt_of_power_lt ten (by linarith : power 10 (-47) < power 10 j)
  have := lt_of_power_lt ten (by linarith : power 10 j < power 10 47)
  omega

/-- Steps of one unit of single precision: then they are whole numbers, and so is the magnitude. -/
theorem step_not_unit (holds : single.Holds q) (positive : 0 < q) (last : step = power 10 j)
    (near : |step - power 2 (single.unit q)| ≤ power 2 (single.unit q) / 2048) (below : f * step < q)
    (above : q < (f + 1) * step) : False := by
  have scale := power_two_pos (single.unit q)
  obtain ⟨lower, upper⟩ := abs_le.mp near
  have zero : j = 0 := by
    rw [last] at lower upper
    obtain ⟨low, high⟩ := exponent_bounds (j := j) holds positive (by linarith) (by linarith)
    exact power_ten_near (e := single.unit q) low high (by linarith) (by linarith)
  have one : step = 1 := by
    rw [last, zero]
    norm_num [power_eq_zpow]
  have unit_zero : single.unit q = 0 := by
    rw [one] at lower upper
    have unity : power 2 0 = 1 := by norm_num [power_eq_zpow]
    have lt : power 2 (single.unit q) < power 2 (0 + 1) := by
      rw [power_two_succ, unity]
      linarith
    have gt : power 2 0 < power 2 (single.unit q + 1) := by
      rw [power_two_succ, unity]
      linarith
    have := lt_of_power_two_lt lt
    have := lt_of_power_two_lt gt
    omega
  obtain ⟨n, _, value⟩ := holds.exists_units positive
  have unity : power 2 (single.unit q) = step := by
    rw [unit_zero, one]
    norm_num [power_eq_zpow]
  rw [unity] at value
  exact not_multiple_between (one ▸ one_pos) value below above

theorem Straddle.large {k : Nat} (straddle : Straddle q step f) (leading : q = power 2 k) (last : step = power 10 j)
    (k_lt : k < 128) (few : j ≤ 46) (below : f * step < q) : k = 87 ∨ k = 90 := by
  have ten : 2 ≤ 10 := by norm_num
  have step_pos : 0 < step := last ▸ power_pos ten _
  obtain whole_step | finer := Int.lt_or_le 0 j
  · obtain ⟨n, rfl⟩ := Int.eq_ofNat_of_zero_le whole_step.le
    have ratio : q * ((10 ^ n : Nat) : ℚ) = ((2 ^ k : Nat) : ℚ) * step := by
      rw [leading, last, power_natCast, power_natCast]
    exact straddles_large k_lt (by omega) (by omega) (straddle.straddles ratio step_pos (by positivity))
  · -- the power of two is a multiple of the step
    obtain ⟨n, rfl⟩ : ∃ n : Nat, j = -n := ⟨j.natAbs, by omega⟩
    have value : q = ((2 ^ k * 10 ^ n : Nat) : ℚ) * step := by
      have inverse : power 10 (n : Int) * step = 1 := by
        rw [last, ← power_add ten, add_neg_cancel]
        norm_num [power_eq_zpow]
      rw [leading, power_natCast, Nat.cast_mul, mul_assoc, ← power_natCast 10 n, inverse, mul_one]
    exact (not_multiple_between step_pos value below straddle.above).elim

theorem Straddle.small {k n : Nat} (straddle : Straddle q step f) (leading : q = power 2 (-k))
    (last : step = power 10 (-n)) (k_lt : k < 126) (some : 0 < n) (few : n ≤ 46) : k = 96 := by
  have ten : 2 ≤ 10 := by norm_num
  have ratio : q * ((2 ^ k : Nat) : ℚ) = ((10 ^ n : Nat) : ℚ) * step := by
    rw [leading, last, ← power_natCast, ← power_natCast, ← power_add (Nat.le_refl 2), ← power_add ten, neg_add_cancel,
      add_neg_cancel]
    norm_num [power_eq_zpow]
  exact straddles_small k_lt some few (straddle.straddles ratio (last ▸ power_pos ten _) (by positivity))

/-- Powers of two: the lower decimal is nearer and still missed, and the upper one is read back, for three of them. -/
theorem power_of_straddle (holds : single.Holds q) (positive : 0 < q) (irregular : ¬single.Regular q)
    (last : step = power 10 j) (above : q < (f + 1) * step)
    (nearer : q - f * step ≤ (f + 1) * step - q)
    (far : f * step + power 2 (single.unit q) / 4 ≤ q + power 2 (single.unit q) / 4096)
    (close : (f + 1) * step ≤ q + power 2 (single.unit q) / 2 + power 2 (single.unit q) / 4096) :
    q = power 2 (-96) ∨ q = power 2 87 ∨ q = power 2 90 := by
  obtain ⟨leading, normal⟩ := not_or.mp irregular
  rw [not_not] at leading
  have scale := power_two_pos (single.unit q)
  have high := floorLog_lt positive (holds.range positive).2
  have unit_eq : single.unit q = floorLog 2 q - 23 ∧ -125 ≤ floorLog 2 q := by
    have low : single.lowest = -149 := rfl
    rw [single_unit] at normal ⊢
    omega
  have whole : q = 2 ^ 23 * power 2 (single.unit q) := by
    have factor : power 2 23 = 2 ^ 23 := by norm_num [power_eq_zpow]
    rw [← factor, ← power_two_add, unit_eq.1, add_sub_cancel]
    exact leading
  have straddle : Straddle q step f := ⟨above, nearer, by linarith, by linarith⟩
  have small : step ≤ 2 * power 2 (single.unit q) := by linarith
  have large : power 2 (single.unit q) / 4 ≤ step := by linarith
  obtain ⟨low, few⟩ := exponent_bounds holds positive (last ▸ large) (last ▸ small)
  generalize floorLog 2 q = log at *
  obtain whole_log | broken_log := le_or_gt 0 log
  · obtain ⟨k, rfl⟩ := Int.eq_ofNat_of_zero_le whole_log
    obtain rfl | rfl := straddle.large leading last (by omega) few (by linarith)
    · exact .inr (.inl leading)
    · exact .inr (.inr leading)
  · obtain ⟨k, rfl⟩ : ∃ k : Nat, log = -k := ⟨log.natAbs, by omega⟩
    have finer : j < 0 := by
      -- one is more than two units
      by_contra whole_step
      have one : power 10 0 ≤ step := last ▸ power_le (by norm_num) (not_lt.mp whole_step)
      have unity : power 10 0 = 1 := by norm_num [power_eq_zpow]
      have units : power 2 (single.unit q) ≤ power 2 (-2) := power_two_le (by omega)
      have quarter : power 2 (-2) = 1 / 4 := by norm_num [power_eq_zpow]
      linarith
    obtain ⟨n, rfl⟩ : ∃ n : Nat, j = -n := ⟨j.natAbs, by omega⟩
    obtain rfl := straddle.small leading last (by omega) (by omega) (by omega)
    exact .inl leading

end Missed

/-! The shortest decimals that are read back -/

namespace Format

variable {q : ℚ}

theorem holds_largest : single.Holds single.largest := by
  refine ⟨2 ^ 24 - 1, 104, by decide, by decide, by decide, ?_⟩
  have limit : single.limit = 24 + 104 := rfl
  have last : single.limit - single.precision = 104 := rfl
  have factor : power 2 24 = 2 ^ 24 := by norm_num [power_eq_zpow]
  rw [largest, last, limit, power_two_add, factor]
  norm_num
  ring

theorem Holds.le_largest (holds : single.Holds q) : q ≤ single.largest := by
  obtain ⟨significand, exponent, short, _, most, rfl⟩ := holds
  have top : power 2 exponent ≤ power 2 104 := power_two_le most
  have limit : single.limit = 24 + 104 := rfl
  have last : single.limit - single.precision = 104 := rfl
  have factor : power 2 24 = 2 ^ 24 := by norm_num [power_eq_zpow]
  have few : (significand : ℚ) ≤ 2 ^ 24 - 1 := by
    have : (significand : ℚ) + 1 ≤ 2 ^ 24 := by exact_mod_cast short
    linarith
  rw [largest, last, limit, power_two_add, factor]
  calc (significand : ℚ) * power 2 exponent ≤ (2 ^ 24 - 1) * power 2 104 :=
        mul_le_mul few top (power_two_pos _).le (by norm_num)
    _ = 2 ^ 24 * power 2 104 - power 2 104 := by ring

/-- A number whose text may be longer than need be. -/
def Overlong (q : ℚ) : Prop := q = power 2 (-96) ∨ q = power 2 87 ∨ q = power 2 90 ∨ q = single.largest

end Format

namespace Scientific

variable {q : ℚ}

/-- Below the largest magnitude the bound on what is read has no effect. -/
theorem readsBack_iff (positive : 0 < q) (below : q < single.largest) (number : Scientific) :
    readsBack q number = true ↔ readAs number.magnitude = q := by
  simp only [readsBack, Bool.and_eq_true, decide_eq_true_eq]
  refine ⟨fun both => both.2, fun read => ⟨?_, read⟩⟩
  by_contra above
  have largest_pos := positive.trans below
  have mono := round_mono single_proper.1 largest_pos.le (not_le.mp above).le
  have same : single.round single.largest = single.largest := holds_largest.round_eq
  rw [same] at mono
  exact (below.trans_le mono).ne' read

/-- If any decimal of some length is read back, the nearest one of that length is. -/
theorem readsBack_of_short (holds : single.Holds q) (positive : 0 < q) (usual : ¬Overlong q) {places c : Nat} {t : Int}
    (short : c < 10 ^ (places + 1)) (read : readAs (c * power 10 t) = q) : readsBack q (ofRat places q) = true := by
  have below := holds.le_largest.lt_of_ne fun largest => usual (.inr (.inr (.inr largest)))
  rw [readsBack_iff positive below]
  by_contra missed
  obtain ⟨f, some, lower, upper, nearest⟩ := ofRat_neighbours places positive rfl
  have self := readAs_of_holds holds positive
  have one : readAs (f * power 10 (floorLog 10 q - places)) = q ∨
      readAs ((f + 1) * power 10 (floorLog 10 q - places)) = q := by
    obtain le | ge := neighbours_of_short positive rfl upper short (t := t)
    · have nonneg : 0 ≤ (c : ℚ) * power 10 t := mul_nonneg (Nat.cast_nonneg c) (power_pos (by norm_num) t).le
      exact .inl (readAs_between nonneg le lower read self)
    · exact .inr (readAs_between positive.le upper.le ge self read)
  have step_pos : 0 < power 10 (floorLog 10 q - places) := power_pos (by norm_num) _
  have step_le : power 10 (floorLog 10 q - places) ≤ f * power 10 (floorLog 10 q - places) := by
    have filled : 1 ≤ f := Nat.one_le_pow _ _ (by norm_num) |>.trans some
    exact le_mul_of_one_le_left step_pos.le (by exact_mod_cast filled)
  have scale := power_two_pos (single.unit q)
  obtain ⟨form, nearer⟩ | ⟨form, nearer⟩ := nearest <;> rw [form] at missed
  · -- the lower one is missed, so it is the upper one that is read back
    have close := le_of_readAs_above holds positive upper.le (by linarith) (one.resolve_left missed)
    obtain ⟨far, farther⟩ :=
      le_of_not_readAs_below holds positive (step_pos.trans_le step_le) lower (by linarith) missed
    by_cases regular : single.Regular q
    · have far := farther regular
      exact step_not_unit holds positive rfl (abs_le.mpr ⟨by linarith, by linarith⟩) (by linarith) upper
    · obtain same | same | same := power_of_straddle holds positive regular rfl upper nearer far close
      · exact usual (.inl same)
      · exact usual (.inr (.inl same))
      · exact usual (.inr (.inr (.inl same)))
  · -- the other way round; powers of two reach farther upward than downward
    have reads := one.resolve_right missed
    have far := le_of_not_readAs_above holds positive upper.le (by linarith) missed
    by_cases regular : single.Regular q
    · have close := le_of_readAs_below holds positive (step_pos.trans_le step_le) lower (by linarith) reads
      exact step_not_unit holds positive rfl (abs_le.mpr ⟨by linarith, by linarith⟩) (by linarith) upper
    · have close :=
        le_of_readAs_below_power holds positive (step_pos.trans_le step_le) lower (by linarith) reads regular
      linarith

/-- The search ends with the first number of places that is read back. -/
theorem shortest_le {places : Nat} (reads : readsBack q (ofRat places q) = true) :
    ∃ fewer ≤ places, shortest q = ofRat fewer q := by
  rw [shortest, List.find?_map]
  cases found : (List.range (mostPlaces + 1)).find? (readsBack q ∘ (ofRat · q)) with
  | none =>
    refine ⟨mostPlaces, ?_, rfl⟩
    by_contra more
    have missed := List.find?_eq_none.mp found places (List.mem_range.mpr (by omega))
    exact missed reads
  | some fewer =>
    refine ⟨fewer, ?_, rfl⟩
    by_contra more
    have missed := (List.find?_range_eq_some.mp found).2.2 places (by omega)
    simp [reads] at missed

end Scientific

/-! Significant digits -/

namespace Decimal

/-- Digits without the zeros at either end. -/
def trim (digits : List Char) : List Char :=
  ((digits.dropWhile (· == '0')).reverse.dropWhile (· == '0')).reverse

/-- The number of significant digits of a decimal: those before the exponent, without the zeros at either end. -/
def significantDigits (text : List Char) : Nat :=
  (trim ((text.takeWhile fun c => c != 'e' && c != 'E').filter isDigit)).length

theorem digit_value {c : Char} (digit : isDigit c = true) : ofDigits [c] ≤ 9 ∧ (c ≠ '0' → 1 ≤ ofDigits [c]) := by
  have range : 48 ≤ c.toNat ∧ c.toNat ≤ 57 := by
    simpa [isDigit, Char.le_def, UInt32.le_iff_toNat_le] using digit
  have value : ofDigits [c] = c.toNat - 48 := by simp [ofDigits]
  rw [value]
  refine ⟨by omega, fun other => ?_⟩
  have : c.toNat ≠ 48 := fun same => other (Char.toNat_inj.mp same)
  omega

theorem ofDigits_lt {digits : List Char} (digital : ∀ c ∈ digits, isDigit c = true) :
    ofDigits digits < 10 ^ digits.length := by
  induction digits with
  | nil => decide
  | cons c rest ih =>
    have value := (digit_value (digital c List.mem_cons_self)).1
    have less := ih fun other member => digital other (List.mem_cons_of_mem c member)
    have split : ofDigits (c :: rest) = ofDigits [c] * 10 ^ rest.length + ofDigits rest := ofDigits_append [c] rest
    rw [split, List.length_cons, Nat.pow_succ]
    calc ofDigits [c] * 10 ^ rest.length + ofDigits rest
        < ofDigits [c] * 10 ^ rest.length + 10 ^ rest.length := Nat.add_lt_add_left less _
      _ = (ofDigits [c] + 1) * 10 ^ rest.length := by ring
      _ ≤ 10 * 10 ^ rest.length := Nat.mul_le_mul_right _ (by omega)
      _ = 10 ^ rest.length * 10 := Nat.mul_comm _ _

/-- What is left out is zeros on both sides. -/
theorem trim_spec (digits : List Char) :
    ∃ front back, digits = List.replicate front '0' ++ (trim digits ++ List.replicate back '0') := by
  obtain ⟨back, rest⟩ := Scientific.exists_zeros (digits.dropWhile (· == '0'))
  obtain ⟨front, zeros⟩ : ∃ front, digits.takeWhile (· == '0') = List.replicate front '0' := by
    refine ⟨_, List.eq_replicate_iff.mpr ⟨rfl, fun c member => ?_⟩⟩
    simpa using List.all_eq_true.mp List.all_takeWhile c member
  refine ⟨front, back, ?_⟩
  rw [trim, ← rest, ← zeros, List.takeWhile_append_dropWhile]

theorem head_dropWhile_ne {first : Char} {more text : List Char} (whole : text.dropWhile (· == '0') = first :: more) :
    first ≠ '0' := by
  have head := List.head?_dropWhile_not (· == '0') text
  rw [whole] at head
  simpa using head

/-- Trimmed digits start and end with no zero. -/
theorem trim_bounds {digits : List Char} (digital : ∀ c ∈ trim digits, isDigit c = true) (some : trim digits ≠ []) :
    10 ^ ((trim digits).length - 1) ≤ ofDigits (trim digits) ∧ ofDigits (trim digits) % 10 ≠ 0 := by
  constructor
  · obtain ⟨first, more, parts⟩ := List.exists_cons_of_ne_nil some
    have nonzero : first ≠ '0' := by
      obtain ⟨back, rest⟩ := Scientific.exists_zeros (digits.dropWhile (· == '0'))
      change _ = trim digits ++ _ at rest
      rw [parts] at rest
      exact head_dropWhile_ne rest
    have value := (digit_value (digital first (parts ▸ List.mem_cons_self))).2 nonzero
    have split : ofDigits (first :: more) = ofDigits [first] * 10 ^ more.length + ofDigits more :=
      ofDigits_append [first] more
    rw [parts, split, List.length_cons, Nat.add_sub_cancel]
    exact (Nat.le_mul_of_pos_left _ value).trans (Nat.le_add_right _ _)
  · obtain ⟨front, last, parts⟩ := (List.eq_nil_or_concat _).resolve_left some
    have nonzero : last ≠ '0' := by
      have reversed : (digits.dropWhile (· == '0')).reverse.dropWhile (· == '0') = last :: front.reverse := by
        rw [← List.reverse_reverse (List.dropWhile _ _)]
        change (trim digits).reverse = _
        rw [parts, List.concat_eq_append, List.reverse_concat]
      exact head_dropWhile_ne reversed
    have value := digit_value (digital last (by rw [parts]; simp))
    have least := value.2 nonzero
    rw [parts, List.concat_eq_append, ofDigits_append, List.length_singleton, Nat.pow_one]
    omega

end Decimal

namespace Decimal

variable {text : List Char} {negative : Bool} {q : ℚ}

/-- The digits that are counted are those of the number. -/
theorem Written.digits (written : Written text negative q) :
    ∃ (digits : List Char) (scale : Int), (∀ c ∈ digits, isDigit c = true) ∧
      significantDigits text = (trim digits).length ∧ q = ofDigits digits * power 10 scale := by
  obtain ⟨signed, digital, digital', some, pointed, scaled⟩ := written
  rename_i sign whole point fraction exponent scale
  refine ⟨whole ++ fraction, _, List.forall_mem_append.mpr ⟨digital, digital'⟩, ?_, rfl⟩
  have plain {c : Char} (digit : isDigit c = true) : (c != 'e' && c != 'E') = true := by
    have : c ≠ 'e' := by rintro rfl; cases digit
    have : c ≠ 'E' := by rintro rfl; cases digit
    simp [*]
  have signs : ∀ c ∈ sign, (c != 'e' && c != 'E') = true := by cases signed <;> simp
  have points : ∀ c ∈ point, (c != 'e' && c != 'E') = true := by obtain rfl | ⟨rfl, _⟩ := pointed <;> simp
  have ends : exponent.takeWhile (fun c => c != 'e' && c != 'E') = [] := by
    cases scaled with
    | absent => rfl
    | written known => obtain rfl | rfl := known <;> rfl
  have unsigned : sign.filter isDigit = [] := by cases signed <;> rfl
  have pointless : point.filter isDigit = [] := by obtain rfl | ⟨rfl, _⟩ := pointed <;> rfl
  rw [significantDigits, List.takeWhile_append_of_pos signs,
    List.takeWhile_append_of_pos fun c member => plain (digital c member), List.takeWhile_append_of_pos points,
    List.takeWhile_append_of_pos fun c member => plain (digital' c member), ends, List.append_nil, List.filter_append,
    List.filter_append, List.filter_append, unsigned, pointless, List.filter_eq_self.mpr digital,
    List.filter_eq_self.mpr digital', List.nil_append, List.nil_append]

/-- A decimal is as many digits and a power of ten as are significant, and no fewer digits and a power of ten. -/
theorem Written.significant (written : Written text negative q) :
    (∃ (c : Nat) (t : Int), c < 10 ^ significantDigits text ∧ q = c * power 10 t) ∧
      ∀ {c n : Nat} {t : Int}, 0 < q → c < 10 ^ n → q = c * power 10 t → significantDigits text ≤ n := by
  obtain ⟨digits, scale, digital, count, value⟩ := written.digits
  obtain ⟨front, back, parts⟩ := trim_spec digits
  have digital : ∀ c ∈ trim digits, isDigit c = true := fun c member => digital c (by rw [parts]; simp [member])
  have trimmed : q = ofDigits (trim digits) * power 10 (scale + back) := by
    have same : ofDigits digits = ofDigits (trim digits ++ List.replicate back '0') := by
      nth_rewrite 1 [parts]
      rw [ofDigits_append, ofDigits_zeros, Nat.zero_mul, Nat.zero_add]
    rw [value, same, ← ofDigits_append_zeros (trim digits) back, add_sub_cancel_right]
  rw [count]
  refine ⟨⟨_, _, ofDigits_lt digital, trimmed⟩, fun {c n t} positive short same => ?_⟩
  have some : trim digits ≠ [] := by
    intro none
    rw [trimmed, none] at positive
    simp [ofDigits] at positive
  obtain ⟨least, last⟩ := trim_bounds digital some
  have ten : 2 ≤ 10 := by norm_num
  rw [trimmed] at same
  obtain fine | coarse := le_or_gt t (scale + back)
  · obtain ⟨k, shift⟩ := Int.eq_ofNat_of_zero_le (sub_nonneg.mpr fine)
    have multiple : ofDigits (trim digits) * 10 ^ k = c := by
      have sum : scale + back = (k : Int) + t := by omega
      rw [sum, power_add ten, power_natCast, ← mul_assoc] at same
      exact_mod_cast mul_right_cancel₀ (power_pos ten t).ne' same
    have more : ofDigits (trim digits) ≤ c := multiple ▸ Nat.le_mul_of_pos_right _ (by positivity)
    have := (Nat.pow_lt_pow_iff_right (by norm_num : 1 < 10)).mp ((least.trans more).trans_lt short)
    omega
  · -- the last digit would be a zero
    obtain ⟨k, shift⟩ := Int.eq_ofNat_of_zero_le (sub_nonneg.mpr coarse.le)
    have multiple : ofDigits (trim digits) = c * 10 ^ k := by
      have sum : t = (k : Int) + (scale + back) := by omega
      rw [sum, power_add ten k, power_natCast, ← mul_assoc] at same
      exact_mod_cast mul_right_cancel₀ (power_pos ten (scale + back)).ne' same
    obtain ⟨j, rfl⟩ : ∃ j, k = j + 1 := ⟨k - 1, by omega⟩
    rw [multiple, Nat.pow_succ, ← Nat.mul_assoc, Nat.mul_mod_left] at last
    exact absurd rfl last

/-- A text with a sign is written as a decimal. -/
theorem Spells.written {unsigned : List Char} (spells : Spells unsigned q) (negative : Bool) :
    Written (if negative then '-' :: unsigned else unsigned) negative q := by
  refine written_iff.mpr (spells.ofChars? ?_)
  cases negative with
  | true => rfl
  | false =>
    obtain ⟨whole, fraction, exponent, _, rfl, number, _⟩ := spells
    exact takeSign_digits number _

end Decimal

open Decimal Scientific

theorem readAs_of_literalValue {lexeme : String} {negative : Bool} {q : ℚ}
    (reads : literalValue .float lexeme = .ok (.float (.finite negative q))) :
    ∃ x, Written lexeme.toList negative x ∧ readAs x = q := by
  simp only [literalValue] at reads
  split at reads
  · next decimal found =>
    rw [toNumber_double_eq, fit] at reads
    split at reads
    · cases reads
    · simp only [Number.roundTo, fit] at reads
      split at reads
      · cases reads
      · cases reads
        exact ⟨decimal.magnitude, written_iff.mpr ⟨decimal, found, rfl, rfl⟩, rfl⟩
  · cases reads

/-- No decimal that is read as a number has fewer significant digits than its text, the exceptions apart. -/
theorem significantDigits_text_le {negative : Bool} {q : ℚ} (holds : single.Holds q) (positive : 0 < q)
    (usual : ¬Overlong q) {lexeme : String}
    (reads : literalValue .float lexeme = .ok (.float (.finite negative q))) :
    significantDigits (Number.finite negative q).text.toList ≤ significantDigits lexeme.toList := by
  obtain ⟨x, written, read⟩ := readAs_of_literalValue reads
  obtain ⟨c, t, short, rfl⟩ := written.significant.1
  have some : 0 < significantDigits lexeme.toList := by
    by_contra none
    have zero : c = 0 := by
      rw [Nat.eq_zero_of_not_pos none] at short
      omega
    rw [zero, Nat.cast_zero, zero_mul, readAs, Format.round_zero, Format.round_zero] at read
    exact positive.ne read
  obtain ⟨places, size⟩ : ∃ places, significantDigits lexeme.toList = places + 1 := ⟨_, (Nat.sub_add_cancel some).symm⟩
  rw [size] at short ⊢
  obtain ⟨fewer, le, form⟩ := shortest_le (readsBack_of_short holds positive usual short read)
  have text : (Number.finite negative q).text.toList =
      if negative then '-' :: magnitudeText q else magnitudeText q := by
    simp only [Number.text, if_neg positive.ne', String.toList_ofList]
  have spells := (magnitudeText_spells holds positive).written negative
  have normal := ofRat_normal fewer positive
  have digits : (ofRat fewer q).places = fewer := by
    rw [ofRat]
    split <;> rfl
  have shown : 0 < (ofRat fewer q).magnitude := (half_pos positive).trans_le (ofRat_between fewer positive).1
  rw [form] at spells
  rw [text]
  have bound := spells.significant.2 shown normal.2 rfl
  omega

theorem literalValue_of_decimal {lexeme : String} {number : Number} (decimal : Decimal)
    (found : ofChars? lexeme.toList = some decimal) (settled : (decimal.toNumber .double).roundTo .single = number) :
    literalValue .float lexeme = .ok (.float number) := by
  simp only [literalValue, found, settled]

/-- For the exceptions one digit fewer would do. -/
theorem exists_shorter (negative : Bool) {q : ℚ} (overlong : Overlong q) :
    ∃ lexeme, literalValue .float lexeme = .ok (.float (.finite negative q)) ∧
      significantDigits lexeme.toList < significantDigits (Number.finite negative q).text.toList := by
  obtain rfl | rfl | rfl | rfl := overlong
  · refine ⟨(if negative then "-" else "") ++ "1.2621775E-29",
      literalValue_of_decimal ⟨negative, 12621775, -36⟩ ?_ ?_, ?_⟩ <;> cases negative <;> decide +kernel
  · refine ⟨(if negative then "-" else "") ++ "1.5474251E26",
      literalValue_of_decimal ⟨negative, 15474251, 19⟩ ?_ ?_, ?_⟩ <;> cases negative <;> decide +kernel
  · refine ⟨(if negative then "-" else "") ++ "1.2379401E27",
      literalValue_of_decimal ⟨negative, 12379401, 20⟩ ?_ ?_, ?_⟩ <;> cases negative <;> decide +kernel
  · refine ⟨(if negative then "-" else "") ++ "3.4028235E38",
      literalValue_of_decimal ⟨negative, 34028235, 31⟩ ?_ ?_, ?_⟩ <;> cases negative <;> decide +kernel

theorem overlong_iff {q : ℚ} :
    Overlong q ↔ q = 2 ^ (-96 : Int) ∨ q = 2 ^ 87 ∨ q = 2 ^ 90 ∨ q = (2 ^ 24 - 1) * 2 ^ 104 := by
  have first : power 2 (-96) = 2 ^ (-96 : Int) := power_eq_zpow 2 (-96)
  have second : power 2 87 = 2 ^ 87 := by norm_num [power_eq_zpow]
  have third : power 2 90 = 2 ^ 90 := by norm_num [power_eq_zpow]
  have fourth : single.largest = (2 ^ 24 - 1) * 2 ^ 104 := by decide +kernel
  rw [Overlong, first, second, third, fourth]

/-- The text of a finite number other than zero has the fewest significant digits of all decimals that are read as it,
except for three powers of two and the largest magnitude. -/
theorem Number.text_shortest_iff {negative : Bool} {magnitude : ℚ}
    (single : (Number.finite negative magnitude).IsSingle) (nonzero : magnitude ≠ 0) :
    (∀ lexeme, literalValue .float lexeme = .ok (.float (.finite negative magnitude)) →
        significantDigits (Number.finite negative magnitude).text.toList ≤ significantDigits lexeme.toList) ↔
      ¬(magnitude = 2 ^ (-96 : Int) ∨ magnitude = 2 ^ 87 ∨ magnitude = 2 ^ 90 ∨
        magnitude = (2 ^ 24 - 1) * 2 ^ 104) := by
  have holds := isSingle_finite.mp single
  rw [← overlong_iff]
  constructor
  · intro shortest overlong
    obtain ⟨lexeme, reads, fewer⟩ := exists_shorter negative overlong
    exact (shortest lexeme reads).not_gt fewer
  · intro usual lexeme reads
    exact significantDigits_text_le holds (holds.nonneg.lt_of_ne' nonzero) usual reads

/-- The largest number is written with nine digits where eight would do. -/
theorem Number.text_largest_not_shortest :
    ¬∀ lexeme, literalValue .float lexeme = .ok (.float (.finite false ((2 ^ 24 - 1) * 2 ^ 104))) →
      significantDigits (Number.finite false ((2 ^ 24 - 1) * 2 ^ 104)).text.toList ≤
        significantDigits lexeme.toList := by
  have holds : (Number.finite false ((2 ^ 24 - 1) * 2 ^ 104)).IsSingle := ⟨2 ^ 24 - 1, 104, by norm_num⟩
  intro shortest
  exact (text_shortest_iff holds (by norm_num)).mp shortest (.inr (.inr (.inr rfl)))

end Corvid
