import Corvid.Proofs.Number.Nearest

/-!
Correct rounding, said without saying how it is computed. A number rounds an exact magnitude if it is the nearest of the
format, the one with the even significand of two that are equally near, and an infinity from halfway between the largest
magnitude and the power of two behind it. There is exactly one such number for every magnitude, and making the magnitude
fit the format finds it.
-/
namespace Corvid

/-! Whole numbers -/

theorem abs_roundEven_sub_le_abs (q : ℚ) (n : Int) : |(roundEven q : ℚ) - q| ≤ |(n : ℚ) - q| := by
  by_contra closer
  have near := (not_le.mp closer).trans_le (abs_roundEven_sub_le q)
  rw [abs_sub_comm] at near
  rw [roundEven_eq_of_near near] at closer
  exact closer le_rfl

/-- Of two whole numbers that are equally near, the even one is chosen. -/
theorem even_roundEven_of_tie {q : ℚ} {n : Int} (other : n ≠ roundEven q)
    (tie : |(n : ℚ) - q| = |(roundEven q : ℚ) - q|) : roundEven q % 2 = 0 := by
  have half : ¬|(roundEven q : ℚ) - q| < 1 / 2 := by
    intro near
    rw [← tie, abs_sub_comm] at near
    exact other (roundEven_eq_of_near near).symm
  have below : (q.floor : ℚ) ≤ q := Rat.le_floor_iff.mp (Int.le_refl _)
  rw [roundEven] at half ⊢
  split at half
  · next small =>
    refine absurd ?_ half
    rw [abs_lt]
    constructor <;> linarith
  · split at half
    · next large =>
      have above : q < ((q.floor + 1 : Int) : ℚ) := Rat.floor_lt_iff.mp (Int.lt_succ _)
      refine absurd ?_ half
      rw [abs_lt]
      push_cast at above ⊢
      constructor <;> linarith
    · next small large =>
      rw [if_neg small, if_neg large]
      omega

/-- A half goes up if that leads to an even number. -/
theorem le_roundEven_of_even {q : ℚ} {n : Int} (even : n % 2 = 0) (le : (n : ℚ) - 1 / 2 ≤ q) : n ≤ roundEven q := by
  by_contra less
  have near := (abs_le.mp (abs_roundEven_sub_le q)).1
  have below : (roundEven q : ℚ) ≤ n - 1 := by
    exact_mod_cast Int.cast_le (R := ℚ) |>.mpr (by omega : roundEven q ≤ n - 1)
  -- only the odd neighbour is left, and it is no nearer than the even one
  have middle : q = n - 1 / 2 := by linarith
  have odd : (roundEven q : ℚ) = n - 1 := by linarith
  have tie : |(n : ℚ) - q| = |(roundEven q : ℚ) - q| := by
    rw [odd, middle]
    ring_nf
    norm_num
  have even' := even_roundEven_of_tie (by omega) tie
  have odd' : roundEven q = n - 1 := by exact_mod_cast odd
  omega

theorem roundEven_mono {x y : ℚ} (le : x ≤ y) : roundEven x ≤ roundEven y := by
  by_contra greater
  have step : ((roundEven y + 1 : Int) : ℚ) ≤ (roundEven x : ℚ) := Int.cast_le.mpr (by omega)
  push_cast at step
  have left := abs_le.mp (abs_roundEven_sub_le x)
  have right := abs_le.mp (abs_roundEven_sub_le y)
  have same : x = y := by linarith
  subst same
  exact greater le_rfl

namespace Format

variable {format : Format} {q : ℚ}

/-! The leading power of two -/

theorem leading_le (positive : 0 < q) : power 2 (floorLog 2 q) ≤ q := (floorLog_spec (Nat.le_refl 2) positive).1

theorem lt_next_power (positive : 0 < q) : q < power 2 (floorLog 2 q + 1) :=
  (floorLog_spec (Nat.le_refl 2) positive).2

theorem floorLog_lt (positive : 0 < q) {exponent : Int} (below : q < power 2 exponent) : floorLog 2 q < exponent :=
  lt_of_power_two_lt ((leading_le positive).trans_lt below)

theorem le_floorLog {exponent : Int} (reached : power 2 exponent ≤ q) : exponent ≤ floorLog 2 q := by
  have next := lt_next_power ((power_two_pos exponent).trans_le reached)
  exact Int.lt_add_one_iff.mp (lt_of_power_two_lt (reached.trans_lt next))

theorem single_unit (q : ℚ) : single.unit q = max (floorLog 2 q - 23) (-149) := by
  change max (floorLog 2 q - 24 + 1) (-149) = _
  omega

theorem double_unit (q : ℚ) : double.unit q = max (floorLog 2 q - 52) (-1074) := by
  change max (floorLog 2 q - 53 + 1) (-1074) = _
  omega

/-! Multiples of a unit -/

theorem power_two_multiple {a b : Int} (le : a ≤ b) : ∃ n : Nat, 0 < n ∧ power 2 b = n * power 2 a := by
  refine ⟨2 ^ (b - a).toNat, by positivity, ?_⟩
  rw [← power_two_natCast, ← power_two_add]
  congr 1
  omega

theorem power_two_succ (exponent : Int) : power 2 (exponent + 1) = 2 * power 2 exponent := by
  rw [power_two_add, mul_comm]
  simp [power]

theorem unit_le_of_power_le (format : Format) {x y : ℚ} (reach : power 2 (floorLog 2 x) ≤ y) :
    format.unit x ≤ format.unit y := by
  have le := le_floorLog reach
  simp only [unit]
  omega

@[simp] theorem round_zero (format : Format) : format.round 0 = 0 := if_pos rfl

theorem round_of_pos (positive : 0 < q) :
    format.round q = (roundEven (q / power 2 (format.unit q)) : ℚ) * power 2 (format.unit q) := by
  rw [round, if_neg positive.ne']

/-- A magnitude of the format is a multiple of the unit of `q`, unless it is below the leading power of two of `q`. -/
theorem Holds.multiple_or_below {magnitude : ℚ} (holds : format.Holds magnitude) (proper : format.Proper) (q : ℚ) :
    (∃ n : Nat, magnitude = n * power 2 (format.unit q)) ∨
      magnitude < power 2 (floorLog 2 q) ∧ format.unit q ≤ floorLog 2 q := by
  by_cases reach : power 2 (floorLog 2 q) ≤ magnitude
  · obtain ⟨n, _, value⟩ := holds.exists_units ((power_two_pos _).trans_le reach)
    obtain ⟨factor, _, shift⟩ := power_two_multiple (format.unit_le_of_power_le reach)
    refine .inl ⟨n * factor, ?_⟩
    rw [value, shift]
    push_cast
    ring
  · by_cases least : format.unit q = format.lowest
    · obtain ⟨n, exponent, _, low, _, rfl⟩ := holds
      obtain ⟨factor, _, shift⟩ := power_two_multiple (least ▸ low)
      refine .inl ⟨n * factor, ?_⟩
      rw [shift]
      push_cast
      ring
    · refine .inr ⟨not_le.mp reach, ?_⟩
      have bits := proper.1
      simp only [unit] at least ⊢
      omega

theorem scaled_distance (format : Format) (q n : ℚ) :
    |n * power 2 (format.unit q) - q| = |n - q / power 2 (format.unit q)| * power 2 (format.unit q) := by
  have scale := power_two_pos (format.unit q)
  rw [← abs_of_pos scale, ← abs_mul, abs_of_pos scale]
  congr 1
  field_simp

theorem abs_round_sub_le_multiple (format : Format) (positive : 0 < q) (n : Int) :
    |format.round q - q| ≤ |(n : ℚ) * power 2 (format.unit q) - q| := by
  rw [round_of_pos positive, scaled_distance, scaled_distance]
  exact mul_le_mul_of_nonneg_right (abs_roundEven_sub_le_abs _ n) (power_two_pos _).le

/-- No magnitude of the format is nearer than the rounded one. -/
theorem abs_round_sub_le_abs (proper : format.Proper) (nonneg : 0 ≤ q) {other : ℚ} (holds : format.Holds other) :
    |format.round q - q| ≤ |other - q| := by
  obtain rfl | positive := nonneg.eq_or_lt
  · simp
  obtain ⟨n, rfl⟩ | ⟨below, fine⟩ := holds.multiple_or_below proper q
  · exact format.abs_round_sub_le_multiple positive n
  · -- the leading power of two is a multiple of the unit, and nearer than what is below it
    obtain ⟨n, _, leading⟩ := power_two_multiple fine
    have reached := leading_le positive
    calc |format.round q - q| ≤ |((n : Int) : ℚ) * power 2 (format.unit q) - q| :=
          format.abs_round_sub_le_multiple positive n
      _ = q - power 2 (floorLog 2 q) := by
          rw [Int.cast_natCast, ← leading, abs_sub_comm, abs_of_nonneg (sub_nonneg.mpr reached)]
      _ ≤ q - other := by linarith
      _ ≤ |other - q| := by
          rw [abs_sub_comm]
          exact le_abs_self _

/-- The magnitudes of a format whose significand can be even. -/
def HoldsEven (format : Format) (magnitude : ℚ) : Prop :=
  ∃ (half : Nat) (exponent : Int), 2 * half < 2 ^ format.precision ∧ format.lowest ≤ exponent ∧
    exponent ≤ format.limit - format.precision ∧ magnitude = ((2 * half : Nat) : ℚ) * power 2 exponent

/-- An even multiple of a unit that is not too large has an even significand, whatever its own unit is. -/
theorem Holds.even_of_multiple {magnitude : ℚ} (holds : format.Holds magnitude) (wide : 2 ≤ format.precision) {n : Nat}
    {exponent : Int} (even : n % 2 = 0) (short : n ≤ 2 ^ format.precision) (low : format.lowest ≤ exponent)
    (value : magnitude = n * power 2 exponent) : format.HoldsEven magnitude := by
  obtain ⟨significand, own, fits, least, most, written⟩ := holds
  obtain ⟨half, even' | odd⟩ := Nat.even_or_odd' significand
  · exact ⟨half, own, even' ▸ fits, least, most, even' ▸ written⟩
  have scale := power_two_pos own
  by_cases finer : own ≤ exponent
  · -- an odd significand is no multiple of a coarser unit, and no even multiple of its own
    obtain ⟨factor, _, shift⟩ := power_two_multiple finer
    have same : (significand : ℚ) = ((n * factor : Nat) : ℚ) := by
      apply mul_right_cancel₀ scale.ne'
      rw [← written, value, shift]
      push_cast
      ring
    have equal := Nat.cast_injective same
    have odd' : (n * factor) % 2 = 1 := by omega
    rw [Nat.mul_mod, even, Nat.zero_mul] at odd'
    omega
  · -- twice the significand fits in the unit below
    obtain ⟨factor, _, shift⟩ := power_two_multiple (by omega : exponent ≤ own - 1)
    have half_scale : power 2 own = 2 * power 2 (own - 1) := by
      rw [← power_two_succ, sub_add_cancel]
    have same : ((significand * 2 * factor : Nat) : ℚ) = (n : ℚ) := by
      apply mul_right_cancel₀ (power_two_pos exponent).ne'
      rw [← value, written, half_scale, shift]
      push_cast
      ring
    have equal := Nat.cast_injective same
    have twice : significand * 2 ≤ n := by
      rw [← equal]
      exact Nat.le_mul_of_pos_right _ (by assumption)
    obtain ⟨bits, width⟩ : ∃ bits, format.precision = bits + 2 := ⟨format.precision - 2, by omega⟩
    refine ⟨significand, own - 1, ?_, by omega, by omega, ?_⟩
    · rw [width, Nat.pow_succ, Nat.pow_succ] at short ⊢
      omega
    · rw [written, half_scale]
      push_cast
      ring

/-- If another magnitude is as near as the rounded one, the rounded one has an even significand. -/
theorem round_even_of_tie (proper : format.Proper) (wide : 2 ≤ format.precision) (nonneg : 0 ≤ q) {other : ℚ}
    (rounded : format.Holds (format.round q)) (holds : format.Holds other) (distinct : other ≠ format.round q)
    (tie : |other - q| = |format.round q - q|) : format.HoldsEven (format.round q) := by
  obtain rfl | positive := nonneg.eq_or_lt
  · rw [round_zero, sub_zero, sub_zero, abs_zero, abs_eq_zero] at tie
    exact absurd tie (format.round_zero ▸ distinct)
  have scale := power_two_pos (format.unit q)
  obtain ⟨n, rfl⟩ | ⟨below, fine⟩ := holds.multiple_or_below proper q
  · rw [round_of_pos positive] at distinct
    rw [round_of_pos positive, scaled_distance, scaled_distance] at tie
    have even := even_roundEven_of_tie (n := n) (fun same => distinct (by rw [← same, Int.cast_natCast]))
      (mul_right_cancel₀ scale.ne' tie)
    have lower : 0 ≤ roundEven (q / power 2 (format.unit q)) :=
      le_roundEven (by simpa using div_nonneg nonneg scale.le)
    have upper : roundEven (q / power 2 (format.unit q)) ≤ ((2 ^ format.precision : Nat) : Int) :=
      roundEven_le (by simpa [power_two_natCast] using scaled_lt positive)
    obtain ⟨m, whole⟩ := Int.eq_ofNat_of_zero_le lower
    rw [whole] at even upper
    refine rounded.even_of_multiple wide (n := m) (by omega) (by exact_mod_cast upper) (format.unit_ge_lowest q) ?_
    rw [round_of_pos positive, whole, Int.cast_natCast]
  · -- what is below the leading power of two is farther than that power
    obtain ⟨n, _, leading⟩ := power_two_multiple fine
    have reached := leading_le positive
    have closer := format.abs_round_sub_le_multiple positive n
    rw [Int.cast_natCast, ← leading, abs_sub_comm (power 2 _), abs_of_nonneg (sub_nonneg.mpr reached), ← tie,
      abs_sub_comm other, abs_of_nonneg (by linarith : 0 ≤ q - other)] at closer
    linarith

/-! Overflow -/

/-- Halfway between the largest magnitude and the power of two at which infinity begins. -/
def halfway (format : Format) : ℚ := (format.largest + power 2 format.limit) / 2

theorem power_limit (format : Format) :
    power 2 format.limit = (2 ^ format.precision : Nat) * power 2 (format.limit - format.precision) := by
  rw [← power_two_natCast, ← power_two_add]
  congr 1
  omega

theorem halfway_eq (format : Format) :
    format.halfway = power 2 format.limit - power 2 (format.limit - format.precision) / 2 := by
  rw [halfway, largest]
  ring

theorem leading_le_round (positive : 0 < q) (fine : format.unit q ≤ floorLog 2 q) :
    power 2 (floorLog 2 q) ≤ format.round q := by
  have scale := power_two_pos (format.unit q)
  obtain ⟨n, _, leading⟩ := power_two_multiple fine
  have reached := leading_le positive
  rw [leading] at reached ⊢
  rw [round_of_pos positive]
  refine mul_le_mul_of_nonneg_right ?_ scale.le
  have whole : (n : Int) ≤ roundEven (q / power 2 (format.unit q)) :=
    le_roundEven (by rw [Int.cast_natCast, le_div_iff₀ scale]; exact reached)
  exact_mod_cast whole

/-- The last unit before infinity. -/
theorem unit_le_last (proper : format.Proper) (positive : 0 < q) (below : q < power 2 format.limit) :
    format.unit q ≤ format.limit - format.precision := by
  have log := floorLog_lt positive below
  have range := proper.2
  simp only [unit]
  omega

theorem limit_le_round_iff (proper : format.Proper) (wide : 2 ≤ format.precision) (nonneg : 0 ≤ q) :
    power 2 format.limit ≤ format.round q ↔ format.halfway ≤ q := by
  have last := power_two_pos (format.limit - format.precision)
  have limit_pos := power_two_pos format.limit
  rw [halfway_eq]
  obtain rfl | positive := nonneg.eq_or_lt
  · have fewer : power 2 (format.limit - format.precision) ≤ power 2 format.limit := power_two_le (by omega)
    rw [round_zero]
    constructor <;> intro le <;> linarith
  by_cases below : q < power 2 format.limit
  · have le := unit_le_last proper positive below
    constructor
    · intro reached
      have near := (abs_le.mp (format.abs_round_sub_le q)).2
      have finer := power_two_le le
      linarith
    · intro reached
      have log : format.limit - 1 ≤ floorLog 2 q := by
        have double : power 2 format.limit = 2 * power 2 (format.limit - 1) := by
          rw [← power_two_succ, sub_add_cancel]
        have half : power 2 (format.limit - format.precision) ≤ power 2 (format.limit - 1) := power_two_le (by omega)
        exact le_floorLog (by linarith)
      have unit_eq : format.unit q = format.limit - format.precision := by
        have ge : floorLog 2 q - (format.precision : Int) + 1 ≤ format.unit q := Int.le_max_left ..
        omega
      have scaled : ((2 ^ format.precision : Nat) : ℚ) - 1 / 2 ≤ q / power 2 (format.unit q) := by
        rw [unit_eq, le_div_iff₀ last, sub_mul, ← power_limit]
        linarith
      have whole : ((2 ^ format.precision : Nat) : Int) ≤ roundEven (q / power 2 (format.unit q)) := by
        obtain ⟨bits, width⟩ : ∃ bits, format.precision = bits + 1 := ⟨format.precision - 1, by omega⟩
        refine le_roundEven_of_even ?_ (by exact_mod_cast scaled)
        rw [width, Nat.pow_succ]
        omega
      rw [round_of_pos positive, unit_eq, power_limit]
      rw [unit_eq] at whole
      exact mul_le_mul_of_nonneg_right (by exact_mod_cast whole) last.le
  · have reached := not_lt.mp below
    have log := le_floorLog reached
    have fine : format.unit q ≤ floorLog 2 q := by
      have range := proper.2
      simp only [unit]
      omega
    have leading := leading_le_round positive fine
    have powers : power 2 format.limit ≤ power 2 (floorLog 2 q) := power_two_le log
    constructor <;> intro _ <;> linarith

/-! Correct rounding -/

/-- The magnitude of the format that is nearest to `q`; of two that are equally near, one with an even significand. -/
structure Nearest (format : Format) (q magnitude : ℚ) : Prop where
  holds : format.Holds magnitude
  closest : ∀ other, format.Holds other → |magnitude - q| ≤ |other - q|
  even_of_tie : ∀ other, format.Holds other → other ≠ magnitude → |other - q| = |magnitude - q| →
    format.HoldsEven magnitude

/-- The number that a sign and an exact magnitude are rounded to. -/
inductive Rounds (format : Format) (negative : Bool) (q : ℚ) : Number → Prop where
  | finite {magnitude : ℚ} (within : q < format.halfway) (nearest : format.Nearest q magnitude) :
      Rounds format negative q (.finite negative magnitude)
  | overflow (reached : format.halfway ≤ q) : Rounds format negative q (.infinite negative)

/-- Between two even significands there is another one. -/
theorem HoldsEven.exists_between {low high : ℚ} (even : format.HoldsEven low) (even' : format.HoldsEven high)
    (bits : 1 ≤ format.precision) (lt : low < high) : ∃ other, format.Holds other ∧ low < other ∧ other < high := by
  obtain ⟨a, e, short, least, most, rfl⟩ := even
  obtain ⟨b, f, short', least', most', rfl⟩ := even'
  have full : 2 ^ format.precision = 2 * 2 ^ (format.precision - 1) := by
    rw [← Nat.pow_succ']
    congr 1
    omega
  obtain coarser | finer := Int.le_total e f
  · have scale := power_two_pos e
    obtain ⟨factor, _, shift⟩ := power_two_multiple coarser
    rw [shift, ← mul_assoc] at lt ⊢
    have less : 2 * a < 2 * b * factor := by exact_mod_cast lt_of_mul_lt_mul_right lt scale.le
    have apart : 2 * a + 1 < 2 * b * factor := by
      rw [Nat.mul_assoc] at less ⊢
      omega
    refine ⟨((2 * a + 1 : Nat) : ℚ) * power 2 e, ⟨_, e, by omega, least, most, rfl⟩, ?_, ?_⟩
    · exact mul_lt_mul_of_pos_right (by exact_mod_cast Nat.lt_succ_self _) scale
    · exact mul_lt_mul_of_pos_right (by exact_mod_cast apart) scale
  · have scale := power_two_pos f
    obtain ⟨factor, _, shift⟩ := power_two_multiple finer
    rw [shift, ← mul_assoc] at lt ⊢
    have less : 2 * a * factor < 2 * b := by exact_mod_cast lt_of_mul_lt_mul_right lt scale.le
    have apart : 2 * a * factor < 2 * b - 1 := by
      rw [Nat.mul_assoc] at less ⊢
      omega
    refine ⟨((2 * b - 1 : Nat) : ℚ) * power 2 f, ⟨_, f, by omega, least', most', rfl⟩, ?_, ?_⟩
    · exact mul_lt_mul_of_pos_right (by exact_mod_cast apart) scale
    · exact mul_lt_mul_of_pos_right (by exact_mod_cast (by omega : 2 * b - 1 < 2 * b)) scale

theorem Nearest.le {low high : ℚ} (left : format.Nearest q low) (right : format.Nearest q high)
    (bits : 1 ≤ format.precision) : high ≤ low := by
  by_contra greater
  have lt := not_le.mp greater
  have tie := (left.closest high right.holds).antisymm (right.closest low left.holds)
  have middle : high - q = q - low := by
    obtain same | opposite := abs_eq_abs.mp tie
    · linarith
    · linarith
  obtain ⟨other, holds, above, below⟩ := (left.even_of_tie high right.holds lt.ne' tie.symm).exists_between
    (right.even_of_tie low left.holds lt.ne tie) bits lt
  have closest := left.closest other holds
  have nearer : |other - q| < |low - q| := by
    rw [abs_sub_comm low, abs_of_nonneg (by linarith : 0 ≤ q - low), abs_lt]
    constructor <;> linarith
  linarith

theorem Nearest.unique {a b : ℚ} (left : format.Nearest q a) (right : format.Nearest q b)
    (bits : 1 ≤ format.precision) : a = b :=
  le_antisymm (right.le left bits) (left.le right bits)

theorem round_nearest (proper : format.Proper) (wide : 2 ≤ format.precision) (nonneg : 0 ≤ q)
    (within : q < format.halfway) : format.Nearest q (format.round q) := by
  have holds : format.Holds (format.round q) :=
    holds_round proper nonneg (not_le.mp fun le => within.not_ge ((limit_le_round_iff proper wide nonneg).mp le))
  exact ⟨holds, fun _ => abs_round_sub_le_abs proper nonneg, fun _ => round_even_of_tie proper wide nonneg holds⟩

/-- Making a magnitude fit a format rounds it correctly, and nothing else does. -/
theorem rounds_iff (proper : format.Proper) (wide : 2 ≤ format.precision) (nonneg : 0 ≤ q) {negative : Bool}
    {number : Number} : format.Rounds negative q number ↔ number = format.fit negative q := by
  rw [fit]
  split
  · next reached =>
    rw [limit_le_round_iff proper wide nonneg] at reached
    constructor
    · intro rounds
      cases rounds with
      | finite within _ => exact absurd reached within.not_ge
      | overflow _ => rfl
    · rintro rfl
      exact .overflow reached
  · next missed =>
    rw [limit_le_round_iff proper wide nonneg, not_le] at missed
    have nearest := round_nearest proper wide nonneg missed
    constructor
    · intro rounds
      cases rounds with
      | finite _ other => rw [other.unique nearest proper.1]
      | overflow reached => exact absurd reached missed.not_ge
    · rintro rfl
      exact .finite missed nearest

theorem rounds_single_iff (nonneg : 0 ≤ q) {negative : Bool} {number : Number} :
    single.Rounds negative q number ↔ number = single.fit negative q :=
  rounds_iff single_proper (by decide) nonneg

end Format

end Corvid
