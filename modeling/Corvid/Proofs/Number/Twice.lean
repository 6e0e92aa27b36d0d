import Corvid.Number.Arithmetic
import Corvid.Proofs.Number.Correct

/-!
Rounding twice: to double precision and from there to single. The second rounding undoes nothing, unless the first one
has moved the magnitude onto a midpoint between two neighbours in single precision. Sums, products and quotients of
numbers of single precision are never moved there: a sum that is inexact in double precision is very close to one of its
terms, products are exact, and a quotient keeps its distance from every midpoint.
-/
namespace Corvid

theorem roundEven_intCast (n : Int) : roundEven (n : ℚ) = n := roundEven_eq_of_near (by simp)

namespace Format

variable {format : Format} {q : ℚ}

/-! Powers of two and multiples of the unit -/

theorem round_of_multiple {n : Int} (value : q = n * power 2 (format.unit q)) : format.round q = q := by
  have scale := power_two_pos (format.unit q)
  by_cases zero : q = 0
  · rw [zero, round_zero]
  · have whole : q / power 2 (format.unit q) = n := (div_eq_iff scale.ne').mpr value
    rw [round, if_neg zero]
    dsimp only
    rw [whole, roundEven_intCast, ← value]

theorem Holds.round_eq (holds : format.Holds q) : format.round q = q := by
  obtain zero | positive := holds.nonneg.eq_or_lt
  · rw [← zero, round_zero]
  · obtain ⟨n, _, value⟩ := holds.exists_units positive
    exact round_of_multiple (n := n) (by rw [Int.cast_natCast]; exact value)

theorem round_le_power (positive : 0 < q) {exponent : Int} (below : q < power 2 exponent)
    (fine : format.unit q ≤ exponent) : format.round q ≤ power 2 exponent := by
  have scale := power_two_pos (format.unit q)
  obtain ⟨n, _, value⟩ := power_two_multiple fine
  rw [value] at below ⊢
  rw [round_of_pos positive]
  refine mul_le_mul_of_nonneg_right ?_ scale.le
  have whole : roundEven (q / power 2 (format.unit q)) ≤ n :=
    roundEven_le (by rw [Int.cast_natCast, div_lt_iff₀ scale]; exact below)
  exact_mod_cast whole

theorem floorLog_eq {exponent : Int} (lower : power 2 exponent ≤ q) (upper : q < power 2 (exponent + 1)) :
    floorLog 2 q = exponent := by
  have := le_floorLog lower
  have := floorLog_lt ((power_two_pos _).trans_le lower) upper
  omega

/-- Up to half the least magnitude everything is rounded to zero. -/
theorem round_tiny (nonneg : 0 ≤ q) (tiny : q ≤ power 2 format.lowest / 2) (least : format.unit q = format.lowest) :
    format.round q = 0 := by
  obtain rfl | positive := nonneg.eq_or_lt
  · exact round_zero _
  have scale := power_two_pos format.lowest
  have small : q / power 2 format.lowest ≤ 1 / 2 := by
    rw [div_le_iff₀ scale]
    linarith
  have most := roundEven_mono small
  have least' : 0 ≤ roundEven (q / power 2 format.lowest) := le_roundEven (by simpa using div_nonneg nonneg scale.le)
  have half : roundEven (1 / 2) = 0 := by decide +kernel
  have none : roundEven (q / power 2 format.lowest) = 0 := by omega
  rw [round_of_pos positive, least, none, Int.cast_zero, zero_mul]

/-! Single and double precision -/

theorem double_unit_add_le (q : ℚ) : double.unit q + 29 ≤ single.unit q := by
  rw [single_unit, double_unit]
  omega

/-- A unit of single precision is an even number of units of double precision, and much larger. -/
theorem single_unit_eq (q : ℚ) :
    ∃ half : Nat, 16 ≤ half ∧ power 2 (single.unit q) = ((2 * half : Nat) : ℚ) * power 2 (double.unit q) := by
  obtain ⟨n, some, shift⟩ := power_two_multiple (by linarith [double_unit_add_le q] : double.unit q + 5 ≤ single.unit q)
  refine ⟨16 * n, by omega, ?_⟩
  have five : power 2 5 = 32 := by norm_num [power_eq_zpow]
  rw [shift, power_two_add, five]
  push_cast
  ring

/-- Near the midpoint between two neighbours in single precision there is no double but the midpoint itself. -/
theorem roundEven_twice {z s d : ℚ} {half : Nat} (coarse : s = ((2 * half : Nat) : ℚ) * d) (positive : 0 < d)
    (j : Int) (near : |(j : ℚ) * d - z| ≤ d / 2)
    (apart : ∀ n : Int, (j : ℚ) * d = (n + 1 / 2) * s → (j : ℚ) * d = z) (some : 0 < half) :
    roundEven (j * d / s) = roundEven (z / s) := by
  have s_pos : 0 < s := by
    rw [coarse]
    exact mul_pos (by exact_mod_cast (by omega : 0 < 2 * half)) positive
  obtain ⟨n, rounded⟩ : ∃ n, n = roundEven (j * d / s) := ⟨_, rfl⟩
  have error := abs_roundEven_sub_le (j * d / s)
  rw [← rounded] at error ⊢
  -- in units of double precision the distance to the whole number is a whole number, at most half of the unit
  have distance : |n * (2 * half : Int) - j| ≤ half := by
    have scaled : |((n * (2 * half : Int) - j : Int) : ℚ)| * d ≤ half * d := by
      calc |((n * (2 * half : Int) - j : Int) : ℚ)| * d = |(n : ℚ) - j * d / s| * s := by
            rw [← abs_of_pos positive, ← abs_of_pos s_pos, ← abs_mul, ← abs_mul, abs_of_pos positive, abs_of_pos s_pos]
            congr 1
            rw [sub_mul, div_mul_cancel₀ _ s_pos.ne', coarse]
            push_cast
            ring
        _ ≤ 1 / 2 * s := mul_le_mul_of_nonneg_right error s_pos.le
        _ = half * d := by
            rw [coarse]
            push_cast
            ring
    exact_mod_cast le_of_mul_le_mul_right scaled positive
  obtain less | equal := distance.lt_or_eq
  · -- there is at least one unit of double precision left
    symm
    apply roundEven_eq_of_near
    have room : |((n * (2 * half : Int) - j : Int) : ℚ)| ≤ half - 1 := by exact_mod_cast Int.le_sub_one_of_lt less
    have whole : z / s - n = (z - j * d) / s - ((n * (2 * half : Int) - j : Int) : ℚ) * d / s := by
      rw [coarse]
      field_simp
      push_cast
      ring
    rw [abs_sub_comm] at near
    calc |z / s - n| ≤ |(z - j * d) / s| + |((n * (2 * half : Int) - j : Int) : ℚ) * d / s| := by
          rw [whole]
          exact abs_sub _ _
      _ = (|z - j * d| + |((n * (2 * half : Int) - j : Int) : ℚ)| * d) / s := by
          rw [abs_div, abs_div, abs_mul, abs_of_pos positive, abs_of_pos s_pos, add_div]
      _ < 1 / 2 := by
          rw [div_lt_iff₀ s_pos, coarse]
          have scaled := mul_le_mul_of_nonneg_right room positive.le
          push_cast at scaled ⊢
          linarith
  · -- the double is a midpoint, so nothing was rounded
    have exact : (j : ℚ) * d = z := by
      have middle : j = (2 * n + 1) * half ∨ j = (2 * n - 1) * half := by
        obtain above | below := abs_eq (by omega : (0 : Int) ≤ half) |>.mp equal
        · right
          linarith
        · left
          linarith
      obtain above | below := middle
      · refine apart n ?_
        rw [above, coarse]
        push_cast
        ring
      · refine apart (n - 1) ?_
        rw [below, coarse]
        push_cast
        ring
    rw [rounded, exact]

theorem round_nonneg (format : Format) (nonneg : 0 ≤ q) : 0 ≤ format.round q := by
  obtain rfl | positive := nonneg.eq_or_lt
  · rw [round_zero]
  have scale := power_two_pos (format.unit q)
  have whole : 0 ≤ roundEven (q / power 2 (format.unit q)) :=
    le_roundEven (by simpa using div_nonneg nonneg scale.le)
  rw [round_of_pos positive]
  exact mul_nonneg (by exact_mod_cast whole) scale.le

/-- What is too small for single precision is too small as a double, too. -/
theorem single_round_double_round_tiny (positive : 0 < q) (tiny : floorLog 2 q < -150) :
    single.round (double.round q) = single.round q := by
  have low : single.lowest = -149 := rfl
  have half_least : power 2 single.lowest / 2 = power 2 (-150) := by norm_num [low, power_eq_zpow]
  have least {x : ℚ} (log : floorLog 2 x < -149) : single.unit x = single.lowest := by
    rw [single_unit]
    omega
  have below : q < power 2 (-150) := (lt_next_power positive).trans_le (power_two_le (by omega))
  have rounded : double.round q ≤ power 2 (-150) :=
    round_le_power positive below (by linarith [double_unit_add_le q, least (by omega : floorLog 2 q < -149)])
  rw [round_tiny positive.le (by rw [half_least]; exact below.le) (least (by omega))]
  obtain zero | some := (double.round_nonneg positive.le).eq_or_lt
  · rw [← zero, round_zero]
  · have log := floorLog_lt some (rounded.trans_lt (by norm_num [power_eq_zpow] : power 2 (-150) < power 2 (-149)))
    exact round_tiny some.le (by rw [half_least]; exact rounded) (least log)

/-- The second rounding undoes nothing if the first one has moved the magnitude onto no midpoint of single precision. -/
theorem single_round_double_round (positive : 0 < q)
    (apart : ∀ n : Int, double.round q = (n + 1 / 2) * power 2 (single.unit q) → double.round q = q) :
    single.round (double.round q) = single.round q := by
  have fine := double_unit_add_le q
  obtain ⟨half, large, coarse⟩ := single_unit_eq q
  have near := double.abs_round_sub_le q
  have unit_pos := power_two_pos (double.unit q)
  by_cases tiny : floorLog 2 q < -150
  · exact single_round_double_round_tiny positive tiny
  have normal : single.unit q ≤ floorLog 2 q + 1 := by
    rw [single_unit]
    omega
  have leading : power 2 (floorLog 2 q) ≤ double.round q := leading_le_round positive (by omega)
  have trailing : double.round q ≤ power 2 (floorLog 2 q + 1) :=
    round_le_power positive (lt_next_power positive) (by omega)
  obtain below | full := trailing.lt_or_eq
  · -- the unit is the same
    have log := floorLog_eq leading below
    have unit_eq : single.unit (double.round q) = single.unit q := by rw [unit, unit, log]
    rw [round_of_pos ((power_two_pos _).trans_le leading), unit_eq, round_of_pos positive]
    rw [round_of_pos positive] at near apart ⊢
    rw [roundEven_twice coarse unit_pos _ near apart (by omega)]
  · -- rounded up to a power of two, and close to it
    obtain ⟨n, _, value⟩ := power_two_multiple normal
    have whole : roundEven (q / power 2 (single.unit q)) = n := by
      have scale := power_two_pos (single.unit q)
      have small : 32 * power 2 (double.unit q) ≤ power 2 (single.unit q) := by
        rw [coarse]
        exact mul_le_mul_of_nonneg_right (by exact_mod_cast (by omega : 32 ≤ 2 * half)) unit_pos.le
      apply roundEven_eq_of_near
      rw [full, value, abs_sub_comm] at near
      have distance : q / power 2 (single.unit q) - (n : Int) =
          (q - n * power 2 (single.unit q)) / power 2 (single.unit q) := by
        rw [Int.cast_natCast]
        field_simp
      rw [distance, abs_div, abs_of_pos scale, div_lt_iff₀ scale]
      linarith
    have log : floorLog 2 (power 2 (floorLog 2 q + 1)) = floorLog 2 q + 1 :=
      floorLog_eq le_rfl (by rw [power_two_succ (floorLog 2 q + 1)]; linarith [power_two_pos (floorLog 2 q + 1)])
    have own : single.unit (power 2 (floorLog 2 q + 1)) ≤ floorLog 2 q + 1 := by
      rw [single_unit, log]
      omega
    obtain ⟨m, _, value'⟩ := power_two_multiple own
    rw [full, round_of_pos positive, whole, Int.cast_natCast, ← value]
    exact round_of_multiple (n := m) (by rw [Int.cast_natCast]; exact value')

end Format

end Corvid
