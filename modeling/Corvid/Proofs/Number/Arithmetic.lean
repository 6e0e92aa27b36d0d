import Corvid.Proofs.Eval.Operators
import Corvid.Proofs.Number.Twice

/-!
Arithmetic in single precision. What the four operations compute by way of double precision is the exact result rounded
once, with the usual results for infinities and NaNs.
-/
namespace Corvid

namespace Format

variable {q : ℚ}

theorem Holds.lt_limit (holds : single.Holds q) : q < power 2 128 := by
  obtain rfl | positive := holds.nonneg.eq_or_lt
  · exact power_two_pos _
  · exact (holds.range positive).2

/-! Exact results and the midpoints of single precision -/

/-- What is close to a number of single precision is not moved onto a midpoint. -/
theorem round_ne_of_near (positive : 0 < q) {term : ℚ} (holds : single.Holds term)
    (near : |q - term| < power 2 (single.unit q) / 4) (n : Int) :
    double.round q ≠ (n + 1 / 2) * power 2 (single.unit q) := by
  intro middle
  have scale := power_two_pos (single.unit q)
  have error := double.abs_round_sub_le q
  have fine : 32 * power 2 (double.unit q) ≤ power 2 (single.unit q) := by
    obtain ⟨half, large, coarse⟩ := single_unit_eq q
    rw [coarse]
    exact mul_le_mul_of_nonneg_right (by exact_mod_cast (by omega : 32 ≤ 2 * half)) (power_two_pos _).le
  obtain ⟨below, above⟩ := abs_lt.mp near
  obtain ⟨below', above'⟩ := abs_le.mp error
  obtain ⟨m, rfl⟩ | ⟨smaller, normal⟩ := holds.multiple_or_below single_proper q
  · -- a multiple of the unit is half a unit away
    rw [middle] at below' above'
    have left : ((n : ℚ) + 1 / 2 - m) * power 2 (single.unit q) < 1 / 2 * power 2 (single.unit q) := by linarith
    have right : -(1 / 2) * power 2 (single.unit q) < ((n : ℚ) + 1 / 2 - m) * power 2 (single.unit q) := by linarith
    have lt : (n : ℚ) < m := by linarith [lt_of_mul_lt_mul_right left scale.le]
    have gt : (m : ℚ) < n + 1 := by linarith [lt_of_mul_lt_mul_right right scale.le]
    have lt' : n < m := by exact_mod_cast lt
    have gt' : (m : Int) < n + 1 := by exact_mod_cast gt
    omega
  · -- the leading power of two is between, half a unit below the midpoint
    have leading : power 2 (floorLog 2 q) ≤ double.round q :=
      leading_le_round positive (by linarith [double_unit_add_le q])
    obtain ⟨m, _, value⟩ := power_two_multiple normal
    rw [middle] at below' above' leading
    rw [value] at leading smaller
    have le : (m : ℚ) ≤ n + 1 / 2 := le_of_mul_le_mul_right leading scale
    have lt : (m : Int) < n + 1 := by
      have : (m : ℚ) < ((n + 1 : Int) : ℚ) := by
        push_cast
        linarith
      exact_mod_cast this
    have le' : (m : ℚ) ≤ n := by exact_mod_cast Int.lt_add_one_iff.mp lt
    have scaled := mul_le_mul_of_nonneg_right le' scale.le
    linarith

/-- A sum with a term that has bits below the last place of a double is close to the other term. -/
theorem round_sum_ne {a b : ℚ} (positive : 0 < a + b) (holds : single.Holds |a|) {significand : Nat} {exponent : Int}
    (short : significand < 2 ^ 24) (low : -149 ≤ exponent) (value : |b| = significand * power 2 exponent)
    (small : exponent < double.unit (a + b)) (n : Int) :
    double.round (a + b) ≠ (n + 1 / 2) * power 2 (single.unit (a + b)) := by
  have leading := leading_le positive
  have normal : double.unit (a + b) = floorLog 2 (a + b) - 52 := by
    rw [double_unit] at small ⊢
    omega
  have less : |b| < power 2 (double.unit (a + b) + 23) := by
    calc |b| < power 2 24 * power 2 exponent := by
          have full : power 2 24 = ((2 ^ 24 : Nat) : ℚ) := power_natCast 2 24
          rw [value, full]
          exact mul_lt_mul_of_pos_right (by exact_mod_cast short) (power_two_pos _)
      _ = power 2 (24 + exponent) := (power_two_add ..).symm
      _ ≤ power 2 (double.unit (a + b) + 23) := power_two_le (by omega)
  have smaller : power 2 (double.unit (a + b) + 23) ≤ power 2 (floorLog 2 (a + b)) := power_two_le (by omega)
  have a_pos : 0 < a := by linarith [le_abs_self b]
  rw [abs_of_pos a_pos] at holds
  apply round_ne_of_near positive holds
  have quarter : power 2 (double.unit (a + b) + 23) ≤ power 2 (single.unit (a + b)) / 4 := by
    have four : power 2 (double.unit (a + b) + 23 + 2) = power 2 (double.unit (a + b) + 23) * 4 := by
      rw [power_two_add _ 2]
      norm_num [power_eq_zpow]
    have le := power_two_le (by linarith [double_unit_add_le (a + b)] :
      double.unit (a + b) + 23 + 2 ≤ single.unit (a + b))
    linarith
  rw [add_sub_cancel_left]
  linarith

theorem exists_signed_multiple {x : ℚ} {significand : Nat} {exponent unit : Int}
    (value : |x| = significand * power 2 exponent) (le : unit ≤ exponent) : ∃ n : Int, x = n * power 2 unit := by
  obtain ⟨factor, _, shift⟩ := power_two_multiple le
  rw [shift] at value
  have nonneg : (0 : ℚ) ≤ significand * (factor * power 2 unit) :=
    mul_nonneg (Nat.cast_nonneg _) (mul_nonneg (Nat.cast_nonneg _) (power_two_pos _).le)
  obtain same | opposite := abs_eq_abs.mp (value.trans (abs_of_nonneg nonneg).symm)
  · refine ⟨(significand * factor : Nat), ?_⟩
    rw [same]
    push_cast
    ring
  · refine ⟨-(significand * factor : Nat), ?_⟩
    rw [opposite]
    push_cast
    ring

theorem round_sum {a b : ℚ} (holds : single.Holds |a|) (holds' : single.Holds |b|) (positive : 0 < a + b) :
    single.round (double.round (a + b)) = single.round (a + b) := by
  apply single_round_double_round positive
  intro n middle
  obtain ⟨i, e, short, low, _, value⟩ := id holds
  obtain ⟨j, f, short', low', _, value'⟩ := id holds'
  by_cases small : f < double.unit (a + b)
  · exact absurd middle (round_sum_ne positive holds short' low' value' small n)
  by_cases small' : e < double.unit (a + b)
  · rw [add_comm] at positive middle small'
    exact absurd middle (round_sum_ne positive holds' short low value small' n)
  · -- both terms are multiples of the last place, so the sum is exact
    obtain ⟨x, left⟩ := exists_signed_multiple value (not_lt.mp small')
    obtain ⟨y, right⟩ := exists_signed_multiple value' (not_lt.mp small)
    refine round_of_multiple (n := x + y) ?_
    push_cast
    rw [add_mul, ← left, ← right]

theorem round_product {a b : ℚ} (holds : single.Holds a) (holds' : single.Holds b) :
    double.round (a * b) = a * b := by
  obtain zero | positive := (mul_nonneg holds.nonneg holds'.nonneg).eq_or_lt
  · rw [← zero, round_zero]
  obtain ⟨i, e, short, low, _, rfl⟩ := holds
  obtain ⟨j, f, short', low', _, rfl⟩ := holds'
  have value : (i : ℚ) * power 2 e * (j * power 2 f) = ((i * j : Nat) : ℚ) * power 2 (e + f) := by
    rw [power_two_add]
    push_cast
    ring
  rw [value] at positive ⊢
  have leading : floorLog 2 (((i * j : Nat) : ℚ) * power 2 (e + f)) < 48 + (e + f) := by
    apply floorLog_lt positive
    have full : power 2 48 = ((2 ^ 24 * 2 ^ 24 : Nat) : ℚ) := by norm_num [power_eq_zpow]
    rw [power_two_add 48, full]
    exact mul_lt_mul_of_pos_right (by exact_mod_cast Nat.mul_lt_mul'' short short') (power_two_pos _)
  have fine : double.unit (((i * j : Nat) : ℚ) * power 2 (e + f)) ≤ e + f := by
    change -149 ≤ e at low
    change -149 ≤ f at low'
    rw [double_unit]
    omega
  obtain ⟨factor, _, shift⟩ := power_two_multiple fine
  refine round_of_multiple (n := (i * j * factor : Nat)) ?_
  nth_rewrite 1 [shift]
  push_cast
  ring

/-- No quotient is so small that a double has fewer bits for it. -/
theorem double_unit_quotient {a b : ℚ} (holds : single.Holds a) (holds' : single.Holds b) (positive : 0 < a)
    (positive' : 0 < b) : double.unit (a / b) = floorLog 2 (a / b) - 52 := by
  have least : power 2 (-277) ≤ a / b := by
    have factor : power 2 (-277) * power 2 128 = power 2 (-149) := (power_two_add (-277) 128).symm
    rw [le_div_iff₀ positive']
    calc power 2 (-277) * b ≤ power 2 (-277) * power 2 128 :=
          mul_le_mul_of_nonneg_left (holds'.range positive').2.le (power_two_pos _).le
      _ = power 2 (-149) := factor
      _ ≤ a := (holds.range positive).1
  have log := le_floorLog least
  rw [double_unit]
  omega

/-- Quotients are inexact as a rule, but a quotient that is no midpoint is not that close to one. -/
theorem round_quotient {a b : ℚ} (holds : single.Holds a) (holds' : single.Holds b) (positive : 0 < a)
    (positive' : 0 < b) : single.round (double.round (a / b)) = single.round (a / b) := by
  have some := div_pos positive positive'
  have place := double_unit_quotient holds holds' positive positive'
  apply single_round_double_round some
  intro n middle
  by_contra moved
  obtain ⟨i, e, short, _, _, rfl⟩ := holds
  obtain ⟨j, f, short', _, _, rfl⟩ := holds'
  obtain ⟨z, quotient⟩ : ∃ z, z = (i : ℚ) * power 2 e / (j * power 2 f) := ⟨_, rfl⟩
  rw [← quotient] at some place middle moved
  have scale := power_two_pos f
  have filled : (0 : ℚ) < j := pos_of_mul_pos_left positive' scale.le
  have times : z * j = i * power 2 (e - f) := by
    have shift : power 2 e = power 2 (e - f) * power 2 f := by
      rw [← power_two_add]
      congr 1
      omega
    rw [quotient, shift]
    field_simp
  -- both sides of the distance, times the divisor's significand, are multiples of 23 places more
  have coarse : double.unit z + 23 ≤ e - f := by
    have most : z < power 2 (24 + (e - f)) := by
      have full : power 2 24 = ((2 ^ 24 : Nat) : ℚ) := power_natCast 2 24
      have whole : (1 : ℚ) ≤ j := by exact_mod_cast (by exact_mod_cast filled : 0 < j)
      calc z ≤ z * j := le_mul_of_one_le_right some.le whole
        _ = i * power 2 (e - f) := times
        _ < _ := by
            rw [power_two_add, full]
            exact mul_lt_mul_of_pos_right (by exact_mod_cast short) (power_two_pos _)
    have := floorLog_lt some most
    omega
  have coarse' : double.unit z + 23 ≤ single.unit z - 1 := by linarith [double_unit_add_le z]
  obtain ⟨k, _, shift⟩ := power_two_multiple coarse
  obtain ⟨k', _, shift'⟩ := power_two_multiple coarse'
  have half : power 2 (single.unit z) = 2 * power 2 (single.unit z - 1) := by
    rw [← power_two_succ, sub_add_cancel]
  obtain ⟨x, whole⟩ : ∃ x : Int, (double.round z - z) * j = x * power 2 (double.unit z + 23) := by
    refine ⟨(2 * n + 1) * k' * j - i * k, ?_⟩
    rw [sub_mul, times, middle, half, shift, shift']
    push_cast
    ring
  have less : |(x : ℚ)| * power 2 (double.unit z + 23) < 1 * power 2 (double.unit z + 23) := by
    have full : power 2 23 * 2 = ((2 ^ 24 : Nat) : ℚ) := by norm_num [power_eq_zpow]
    calc |(x : ℚ)| * power 2 (double.unit z + 23) = |double.round z - z| * j := by
          rw [← abs_of_pos (power_two_pos (double.unit z + 23)), ← abs_mul, ← whole, abs_mul, abs_of_pos filled]
      _ ≤ power 2 (double.unit z) / 2 * j := mul_le_mul_of_nonneg_right (double.abs_round_sub_le z) filled.le
      _ < power 2 (double.unit z) / 2 * (power 2 23 * 2) := by
          rw [full]
          exact mul_lt_mul_of_pos_left (by exact_mod_cast short') (half_pos (power_two_pos _))
      _ = 1 * power 2 (double.unit z + 23) := by
          rw [power_two_add]
          ring
  have small := lt_of_mul_lt_mul_right less (power_two_pos _).le
  have none : x = 0 := by
    have : |x| < 1 := by exact_mod_cast small
    exact Int.abs_lt_one_iff.mp this
  rw [none, Int.cast_zero, zero_mul, mul_eq_zero] at whole
  exact moved (by linarith [whole.resolve_right filled.ne'])

end Format

namespace Number

open Format

variable {left right result : Number} {fresh : Nat}

/-! Results of the operations -/

/-- The sign of an exact result. A result of zero has the given one. -/
def signOf (negativeZero : Bool) (z : ℚ) : Bool := if z = 0 then negativeZero else decide (z < 0)

/-- Sums in single precision. A sum of zero is negative only if both terms are. -/
inductive IsSum (fresh : Nat) : Number → Number → Number → Prop where
  | nanLeft (tag : Nat) (right : Number) : IsSum fresh (.nan tag) right (.nan fresh)
  | nanRight (left : Number) (tag : Nat) : IsSum fresh left (.nan tag) (.nan fresh)
  | opposite (sign : Bool) : IsSum fresh (.infinite sign) (.infinite !sign) (.nan fresh)
  | infinite (sign : Bool) : IsSum fresh (.infinite sign) (.infinite sign) (.infinite sign)
  | infiniteLeft (sign other : Bool) (q : ℚ) : IsSum fresh (.infinite sign) (.finite other q) (.infinite sign)
  | infiniteRight (other sign : Bool) (p : ℚ) : IsSum fresh (.finite other p) (.infinite sign) (.infinite sign)
  | finite {a b : Bool} {p q : ℚ} {result : Number}
      (rounds : single.Rounds (signOf (a && b) (signed a p + signed b q)) |signed a p + signed b q| result) :
      IsSum fresh (.finite a p) (.finite b q) result

/-- Products in single precision. -/
inductive IsProduct (fresh : Nat) : Number → Number → Number → Prop where
  | nanLeft (tag : Nat) (right : Number) : IsProduct fresh (.nan tag) right (.nan fresh)
  | nanRight (left : Number) (tag : Nat) : IsProduct fresh left (.nan tag) (.nan fresh)
  | infinite (a b : Bool) : IsProduct fresh (.infinite a) (.infinite b) (.infinite (a != b))
  | zeroRight (a b : Bool) : IsProduct fresh (.infinite a) (.finite b 0) (.nan fresh)
  | zeroLeft (a b : Bool) : IsProduct fresh (.finite a 0) (.infinite b) (.nan fresh)
  | infiniteLeft (a b : Bool) {q : ℚ} (some : q ≠ 0) : IsProduct fresh (.infinite a) (.finite b q) (.infinite (a != b))
  | infiniteRight (a b : Bool) {p : ℚ} (some : p ≠ 0) : IsProduct fresh (.finite a p) (.infinite b) (.infinite (a != b))
  | finite {a b : Bool} {p q : ℚ} {result : Number} (rounds : single.Rounds (a != b) (p * q) result) :
      IsProduct fresh (.finite a p) (.finite b q) result

/-- Quotients in single precision, by a divisor that is not zero. -/
inductive IsQuotient (fresh : Nat) : Number → Number → Number → Prop where
  | nanLeft (tag : Nat) (right : Number) : IsQuotient fresh (.nan tag) right (.nan fresh)
  | nanRight (left : Number) (tag : Nat) : IsQuotient fresh left (.nan tag) (.nan fresh)
  | infinite (a b : Bool) : IsQuotient fresh (.infinite a) (.infinite b) (.nan fresh)
  | infiniteLeft (a b : Bool) (q : ℚ) : IsQuotient fresh (.infinite a) (.finite b q) (.infinite (a != b))
  | infiniteRight (a b : Bool) (p : ℚ) : IsQuotient fresh (.finite a p) (.infinite b) (.finite (a != b) 0)
  | finite {a b : Bool} {p q : ℚ} {result : Number} (rounds : single.Rounds (a != b) (p / q) result) :
      IsQuotient fresh (.finite a p) (.finite b q) result

/-- The result of an operation. A difference is a sum with the negated number. -/
def IsResult (fresh : Nat) : Operator → Number → Number → Number → Prop
  | .add, left, right, result => IsSum fresh left right result
  | .sub, left, right, result => IsSum fresh left right.negated result
  | .mul, left, right, result => IsProduct fresh left right result
  | .div, left, right, result => IsQuotient fresh left right result
  | .and, _, _, _ | .or, _, _, _ => False

/-! One rounding instead of two -/

/-- If the second rounding undoes nothing, the result is rounded once. -/
theorem settleSingle_finite {negative : Bool} {q : ℚ} (nonneg : 0 ≤ q) (below : q < power 2 300)
    (once : single.round (double.round q) = single.round q) :
    settleSingle (.finite negative q) = single.fit negative q := by
  have finite : double.round q < power 2 double.limit := by
    obtain rfl | positive := nonneg.eq_or_lt
    · rw [round_zero]
      exact power_two_pos _
    · have log := floorLog_lt positive below
      have fine : double.unit q ≤ 300 := by
        rw [double_unit]
        omega
      refine (round_le_power positive below fine).trans_lt ?_
      have next : power 2 301 = 2 * power 2 300 := power_two_succ 300
      have most : power 2 301 ≤ power 2 double.limit := power_two_le (by decide)
      linarith [power_two_pos 300]
  have first : double.fit negative q = .finite negative (double.round q) := by rw [fit, if_neg (not_le.mpr finite)]
  rw [settleSingle, roundTo, first, roundTo, fit, fit, once]

theorem abs_signed (negative : Bool) {q : ℚ} (nonneg : 0 ≤ q) : |signed negative q| = q := by
  cases negative with
  | false => exact abs_of_nonneg nonneg
  | true => rw [signed, if_pos rfl, abs_neg, abs_of_nonneg nonneg]

theorem ofRat_eq (negativeZero : Bool) (z : ℚ) : ofRat negativeZero z = .finite (signOf negativeZero z) |z| := by
  rw [ofRat, signOf]
  by_cases zero : z = 0
  · rw [if_pos zero, if_pos zero, zero, abs_zero]
  · rw [if_neg zero, if_neg zero]
    by_cases negative : z < 0
    · rw [if_pos negative, decide_eq_true negative, abs_of_neg negative]
    · rw [if_neg negative, decide_eq_false negative, abs_of_nonneg (not_lt.mp negative)]

theorem settle_sum {a b : ℚ} (holds : single.Holds |a|) (holds' : single.Holds |b|) (negativeZero : Bool) :
    settleSingle (ofRat negativeZero (a + b)) = single.fit (signOf negativeZero (a + b)) |a + b| := by
  have below : |a + b| < power 2 300 := by
    have next : power 2 129 = 2 * power 2 128 := power_two_succ 128
    have most : power 2 129 ≤ power 2 300 := power_two_le (by decide)
    linarith [abs_add_le a b, holds.lt_limit, holds'.lt_limit]
  rw [ofRat_eq]
  apply settleSingle_finite (abs_nonneg _) below
  obtain negative | zero | positive := lt_trichotomy (a + b) 0
  · -- the terms with their signs turned round
    have mirrored : 0 < -a + -b := by linarith
    have same : |a + b| = -a + -b := by
      rw [abs_of_neg negative]
      ring
    rw [same]
    exact round_sum (by rwa [abs_neg]) (by rwa [abs_neg]) mirrored
  · rw [zero, abs_zero, round_zero]
  · rw [abs_of_pos positive]
    exact round_sum holds holds' positive

theorem settle_product {p q : ℚ} (holds : single.Holds p) (holds' : single.Holds q) (negative : Bool) :
    settleSingle (.finite negative (p * q)) = single.fit negative (p * q) := by
  apply settleSingle_finite (mul_nonneg holds.nonneg holds'.nonneg)
  · calc p * q ≤ power 2 128 * power 2 128 :=
          mul_le_mul holds.lt_limit.le holds'.lt_limit.le holds'.nonneg (power_two_pos _).le
      _ = power 2 256 := (power_two_add 128 128).symm
      _ < 2 * power 2 256 := by linarith [power_two_pos 256]
      _ = power 2 257 := (power_two_succ 256).symm
      _ ≤ power 2 300 := power_two_le (by decide)
  · rw [round_product holds holds']

theorem settle_quotient {p q : ℚ} (holds : single.Holds p) (holds' : single.Holds q) (divisor : q ≠ 0)
    (negative : Bool) :
    settleSingle (.finite negative (p / q)) = single.fit negative (p / q) := by
  have divisor_pos : 0 < q := holds'.nonneg.lt_of_ne' divisor
  apply settleSingle_finite (div_nonneg holds.nonneg holds'.nonneg)
  · rw [div_lt_iff₀ divisor_pos]
    calc p < power 2 128 := holds.lt_limit
      _ ≤ power 2 151 := power_two_le (by decide)
      _ = power 2 300 * power 2 (-149) := by rw [← power_two_add]; norm_num
      _ ≤ power 2 300 * q := mul_le_mul_of_nonneg_left (holds'.range divisor_pos).1 (power_two_pos _).le
  · obtain rfl | positive := holds.nonneg.eq_or_lt
    · rw [zero_div, Format.round_zero]
    · exact round_quotient holds holds' positive divisor_pos

/-! The operations give the results -/

theorem IsSum.eq_add (sum : IsSum fresh left right result) (single : left.IsSingle) (single' : right.IsSingle) :
    result = left.add fresh right := by
  cases sum with
  | nanLeft tag right => rfl
  | nanRight left tag => cases left <;> rfl
  | opposite sign => cases sign <;> rfl
  | infinite sign => cases sign <;> rfl
  | infiniteLeft sign other q => rfl
  | infiniteRight other sign p => rfl
  | @finite a b p q _ rounds =>
    have holds := isSingle_finite.mp single
    have holds' := isSingle_finite.mp single'
    rw [rounds_single_iff (abs_nonneg _)] at rounds
    rw [rounds, ← settle_sum (by rwa [abs_signed a holds.nonneg]) (by rwa [abs_signed b holds'.nonneg])]
    rfl

theorem exists_isSum (fresh : Nat) (left right : Number) : ∃ result, IsSum fresh left right result := by
  cases left with
  | nan tag => exact ⟨_, .nanLeft tag right⟩
  | infinite a =>
    cases right with
    | nan tag => exact ⟨_, .nanRight _ tag⟩
    | infinite b =>
      obtain rfl | rfl : b = a ∨ b = !a := by cases a <;> cases b <;> simp
      · exact ⟨_, .infinite b⟩
      · exact ⟨_, .opposite a⟩
    | finite b q => exact ⟨_, .infiniteLeft a b q⟩
  | finite a p =>
    cases right with
    | nan tag => exact ⟨_, .nanRight _ tag⟩
    | infinite b => exact ⟨_, .infiniteRight a b p⟩
    | finite b q => exact ⟨_, .finite ((rounds_single_iff (abs_nonneg _)).mpr rfl)⟩

theorem IsProduct.eq_mul (product : IsProduct fresh left right result) (single : left.IsSingle)
    (single' : right.IsSingle) : result = left.mul fresh right := by
  cases product with
  | nanLeft tag right => rfl
  | nanRight left tag => cases left <;> rfl
  | infinite a b => rfl
  | zeroRight a b => rfl
  | zeroLeft a b => rfl
  | infiniteLeft a b some => rw [mul, exactProduct, if_neg some]; rfl
  | infiniteRight a b some => rw [mul, exactProduct, if_neg some]; rfl
  | finite rounds =>
    have holds := isSingle_finite.mp single
    have holds' := isSingle_finite.mp single'
    rw [rounds_single_iff (mul_nonneg holds.nonneg holds'.nonneg)] at rounds
    rw [rounds, ← settle_product holds holds']
    rfl

theorem exists_isProduct (fresh : Nat) (unsigned : left.Unsigned) (unsigned' : right.Unsigned) :
    ∃ result, IsProduct fresh left right result := by
  cases left with
  | nan tag => exact ⟨_, .nanLeft tag right⟩
  | infinite a =>
    cases right with
    | nan tag => exact ⟨_, .nanRight _ tag⟩
    | infinite b => exact ⟨_, .infinite a b⟩
    | finite b q =>
      obtain rfl | some := eq_or_ne q 0
      · exact ⟨_, .zeroRight a b⟩
      · exact ⟨_, .infiniteLeft a b some⟩
  | finite a p =>
    cases right with
    | nan tag => exact ⟨_, .nanRight _ tag⟩
    | infinite b =>
      obtain rfl | some := eq_or_ne p 0
      · exact ⟨_, .zeroLeft a b⟩
      · exact ⟨_, .infiniteRight a b some⟩
    | finite b q => exact ⟨_, .finite ((rounds_single_iff (mul_nonneg unsigned unsigned')).mpr rfl)⟩

theorem IsQuotient.eq_div (quotient : IsQuotient fresh left right result) (single : left.IsSingle)
    (single' : right.IsSingle) (divisor : right.isZero = false) : result = left.div fresh right := by
  cases quotient with
  | nanLeft tag right => rfl
  | nanRight left tag => cases left <;> rfl
  | infinite a b => rfl
  | infiniteLeft a b q => rfl
  | infiniteRight a b p =>
    have zero : settleSingle (.finite (a != b) 0) = .finite (a != b) 0 := by
      rw [settleSingle_finite le_rfl (power_two_pos _) (by simp), fit, Format.round_zero,
        if_neg (not_le.mpr (power_two_pos _))]
    exact zero.symm
  | finite rounds =>
    have holds := isSingle_finite.mp single
    have holds' := isSingle_finite.mp single'
    rw [rounds_single_iff (div_nonneg holds.nonneg holds'.nonneg)] at rounds
    rw [rounds, ← settle_quotient holds holds' (by simpa [isZero] using divisor)]
    rfl

theorem exists_isQuotient (fresh : Nat) (unsigned : left.Unsigned) (unsigned' : right.Unsigned) :
    ∃ result, IsQuotient fresh left right result := by
  cases left with
  | nan tag => exact ⟨_, .nanLeft tag right⟩
  | infinite a =>
    cases right with
    | nan tag => exact ⟨_, .nanRight _ tag⟩
    | infinite b => exact ⟨_, .infinite a b⟩
    | finite b q => exact ⟨_, .infiniteLeft a b q⟩
  | finite a p =>
    cases right with
    | nan tag => exact ⟨_, .nanRight _ tag⟩
    | infinite b => exact ⟨_, .infiniteRight a b p⟩
    | finite b q => exact ⟨_, .finite ((rounds_single_iff (div_nonneg unsigned unsigned')).mpr rfl)⟩

theorem negated_isSingle (single : right.IsSingle) : right.negated.IsSingle := by
  cases right with
  | finite negative magnitude => exact single
  | _ => trivial

/-- On numbers of single precision an operation gives its result, and no other number is one. -/
theorem onNumbers_result {op : Operator} (single : left.IsSingle) (single' : right.IsSingle)
    (arithmetic : op = .add ∨ op = .sub ∨ op = .mul ∨ op = .div) (divisor : op = .div → right.isZero = false) :
    ∃ result, op.onNumbers fresh left right = .ok result ∧
      ∀ other, IsResult fresh op left right other ↔ other = result := by
  -- a result that exists and is what the operation gives is the only one
  have settled {gives : Number → Prop} {result : Number} (found : ∃ other, gives other)
      (same : ∀ {other}, gives other → other = result) (other : Number) : gives other ↔ other = result := by
    obtain ⟨known, given⟩ := found
    exact ⟨same, fun equal => equal ▸ same given ▸ given⟩
  obtain rfl | rfl | rfl | rfl := arithmetic
  · exact ⟨_, rfl, settled (exists_isSum fresh left right) (·.eq_add single single')⟩
  · exact ⟨_, rfl, settled (exists_isSum fresh left right.negated) (·.eq_add single (negated_isSingle single'))⟩
  · exact ⟨_, rfl, settled (exists_isProduct fresh single.unsigned single'.unsigned) (·.eq_mul single single')⟩
  · refine ⟨_, if_neg ?_, settled (exists_isQuotient fresh single.unsigned single'.unsigned)
      (·.eq_div single single' (divisor rfl))⟩
    rw [divisor rfl]
    exact Bool.false_ne_true

end Number

/-! Operands -/

/-- The number that a value stands for in arithmetic: a float itself, a whole number rounded to single precision. -/
inductive Operand : Value → Number → Prop where
  | float {number : Number} (single : number.IsSingle) : Operand (.float number) number
  | int {n : Int} {number : Number} (fits : Integer.fits n = true)
      (rounds : Format.single.Rounds (decide (n < 0)) |(n : ℚ)| number) : Operand (.int n) number

namespace Operand

open Format Number

variable {value : Value} {number : Number}

/-- Whole numbers of 32 bits are exact in double precision. -/
theorem settle_integer {n : Int} (fits : Integer.fits n = true) :
    settleSingle (.ofRat false n) = single.fit (decide (n < 0)) |(n : ℚ)| := by
  have bounds : |n| ≤ 2 ^ 31 := by
    obtain ⟨lower, upper⟩ := Integer.fits_iff.mp fits
    unfold Integer.least at lower
    unfold Integer.greatest at upper
    exact abs_le.mpr ⟨by omega, by omega⟩
  have below : |(n : ℚ)| < power 2 32 := by
    have full : power 2 32 = ((2 ^ 32 : Int) : ℚ) := by norm_num [power_eq_zpow]
    rw [full, ← Int.cast_abs]
    exact_mod_cast (by omega : |n| < 2 ^ 32)
  have sign : signOf false n = decide (n < 0) := by
    rw [signOf]
    split
    · next zero =>
      rw [Int.cast_eq_zero.mp zero]
      rfl
    · simp
  have exact : double.round |(n : ℚ)| = |(n : ℚ)| := by
    obtain zero | positive := (abs_nonneg (n : ℚ)).eq_or_lt
    · rw [← zero, Format.round_zero]
    have log := floorLog_lt positive below
    have fine : double.unit |(n : ℚ)| ≤ 0 := by
      rw [double_unit]
      omega
    obtain ⟨factor, _, shift⟩ := power_two_multiple fine
    refine round_of_multiple (n := |n| * factor) ?_
    push_cast
    rw [mul_assoc, ← shift]
    simp [power]
  rw [ofRat_eq, sign]
  exact settleSingle_finite (abs_nonneg _) (below.trans_le (power_two_le (by decide))) (by rw [exact])

theorem number_eq (operand : Operand value number) : value.number = .ok number := by
  cases operand with
  | float _ => rfl
  | int fits rounds =>
    rw [rounds_single_iff (abs_nonneg _)] at rounds
    rw [Value.number, settle_integer fits, rounds]

theorem isSingle (operand : Operand value number) : number.IsSingle := by
  cases operand with
  | float single => exact single
  | int fits rounds =>
    rw [rounds_single_iff (abs_nonneg _)] at rounds
    rw [rounds, ← settle_integer fits]
    exact settleSingle_isSingle (ofRat_unsigned _ _)

/-- Only zeros are rounded to zero. -/
theorem isZero_iff (operand : Operand value number) :
    number.isZero = true ↔ value = .int 0 ∨ ∃ negative, value = .float (.finite negative 0) := by
  cases operand with
  | float _ =>
    cases number with
    | finite negative magnitude => simp [isZero]
    | _ => simp [isZero]
  | @int n _ fits rounds =>
    rw [rounds_single_iff (abs_nonneg _)] at rounds
    obtain rfl | some := eq_or_ne n 0
    · have zero : single.fit (decide ((0 : Int) < 0)) |((0 : Int) : ℚ)| = .finite false 0 := by
        rw [fit, Int.cast_zero, abs_zero, Format.round_zero, if_neg (not_le.mpr (power_two_pos _))]
        rfl
      rw [rounds, zero]
      simp [isZero]
    · have one : power 2 0 ≤ |(n : ℚ)| := by
        rw [power_eq_zpow, zpow_zero, ← Int.cast_abs]
        exact_mod_cast Int.one_le_abs some
      have positive := (power_two_pos 0).trans_le one
      have log := le_floorLog one
      have fine : single.unit |(n : ℚ)| ≤ floorLog 2 |(n : ℚ)| := by
        rw [single_unit]
        omega
      have rounded := (power_two_pos _).trans_le (leading_le_round positive fine)
      have nonzero : number.isZero = false := by
        rw [rounds, fit]
        split
        · rfl
        · simpa [isZero] using rounded.ne'
      simp [nonzero, some]

end Operand

theorem arithmetic_of_numbers {op : Operator} {fresh : Nat} {left right : Value} {a b : Number}
    (float : left.kind = .float ∨ right.kind = .float) (number : left.number = .ok a) (number' : right.number = .ok b) :
    arithmetic op fresh left right = (op.onNumbers fresh a b).map .float := by
  have general : arithmetic op fresh left right = (do
      let a ← left.number
      let b ← right.number
      return .float (← op.onNumbers fresh a b)) := by
    obtain float | float := float
    · cases left <;> cases float
      cases op <;> cases right <;> rfl
    · cases right <;> cases float
      cases op <;> cases left <;> rfl
  rw [general, number, number']
  change (op.onNumbers fresh a b >>= fun number => pure (Value.float number)) = _
  cases op.onNumbers fresh a b <;> rfl

/-- Arithmetic on floats, or on a float and a whole number, gives the exact result rounded once to single precision, and
division by a zero of any kind gives none. -/
theorem arithmetic_rounds_once {op : Operator} (kind : op = .add ∨ op = .sub ∨ op = .mul ∨ op = .div)
    {left right : Value} {a b : Number} (operand : Operand left a) (operand' : Operand right b)
    (float : left.kind = .float ∨ right.kind = .float) (fresh : Nat) :
    (op = .div ∧ (right = .int 0 ∨ ∃ negative, right = .float (.finite negative 0)) →
      arithmetic op fresh left right = .error .zeroDivision) ∧
    (¬(op = .div ∧ (right = .int 0 ∨ ∃ negative, right = .float (.finite negative 0))) →
      ∃ result, arithmetic op fresh left right = .ok (.float result) ∧
        ∀ other, Number.IsResult fresh op a b other ↔ other = result) := by
  rw [arithmetic_of_numbers float operand.number_eq operand'.number_eq, ← operand'.isZero_iff]
  constructor
  · rintro ⟨rfl, zero⟩
    rw [Operator.onNumbers, if_pos zero]
    rfl
  · intro divisible
    have divisor : op = .div → b.isZero = false := fun division =>
      Bool.eq_false_iff.mpr fun zero => divisible ⟨division, zero⟩
    obtain ⟨result, computed, only⟩ := Number.onNumbers_result operand.isSingle operand'.isSingle kind divisor
    exact ⟨result, by rw [computed]; rfl, only⟩

/-- One divided by three. -/
theorem arithmetic_rounds_once_third :
    ∃ result, arithmetic .div 0 (.float (.finite false 1)) (.int 3) = .ok (.float result) ∧
      ∀ other, Number.IsResult 0 .div (.finite false 1) (.finite false 3) other ↔ other = result := by
  have one : Operand (.float (.finite false 1)) (.finite false 1) := .float ⟨1, 0, by norm_num⟩
  have three : Operand (.int 3) (.finite false 3) :=
    .int (by decide) ((Format.rounds_single_iff (abs_nonneg _)).mpr (by decide +kernel))
  exact (arithmetic_rounds_once (.inr (.inr (.inr rfl))) one three (.inl rfl) 0).2 (by simp)

end Corvid
