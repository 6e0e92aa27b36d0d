import Corvid.Proofs.Number.Twice

/-!
The magnitudes that are read as one number of single precision form an interval around it: they reach half a unit
upward, and as far downward unless the number is a power of two, below which the units are half as large. Reading goes
by way of double precision, which moves the ends of the interval by a tiny part of a unit.
-/
namespace Corvid

namespace Format

variable {format : Format} {q x y : ℚ}

theorem round_mono (bits : 1 ≤ format.precision) (nonneg : 0 ≤ x) (le : x ≤ y) : format.round x ≤ format.round y := by
  obtain rfl | positive := nonneg.eq_or_lt
  · rw [round_zero]
    exact format.round_nonneg le
  have positive' := positive.trans_le le
  have units := format.unit_le_of_power_le ((leading_le positive).trans le)
  obtain same | less := units.eq_or_lt
  · rw [round_of_pos positive, round_of_pos positive', same]
    have scale := power_two_pos (format.unit y)
    exact mul_le_mul_of_nonneg_right
      (by exact_mod_cast roundEven_mono (div_le_div_of_nonneg_right le scale.le)) scale.le
  · -- the leading power of two of the larger one is between them
    have normal : format.unit y ≤ floorLog 2 y := by
      have := format.unit_ge_lowest x
      simp only [unit] at less ⊢
      omega
    have log : floorLog 2 x < floorLog 2 y := by
      simp only [unit] at less
      omega
    have below : x < power 2 (floorLog 2 y) :=
      (lt_next_power positive).trans_le (power_two_le (by omega))
    exact (round_le_power positive below (by omega)).trans (leading_le_round positive' normal)

/-- What is nearer than half a unit of the same size is rounded to the number. -/
theorem round_eq_of_unit_eq (holds : format.Holds q) (positive : 0 < q) (positive' : 0 < x)
    (same : format.unit x = format.unit q) (near : |x - q| < power 2 (format.unit q) / 2) : format.round x = q := by
  have scale := power_two_pos (format.unit q)
  obtain ⟨n, _, value⟩ := holds.exists_units positive
  have rounded : roundEven (x / power 2 (format.unit q)) = n := by
    apply roundEven_eq_of_near
    have whole : (n : ℚ) = q / power 2 (format.unit q) := ((div_eq_iff scale.ne').mpr value).symm
    rw [Int.cast_natCast, whole, ← sub_div, abs_div, abs_of_pos scale, div_lt_iff₀ scale]
    linarith
  rw [round_of_pos positive', same, rounded, Int.cast_natCast, ← value]

/-! Above a number -/

theorem le_of_round_above (positive : 0 < q) (above : q ≤ x) (rounded : format.round x = q)
    (normal : format.unit x ≤ floorLog 2 x) : x ≤ q + power 2 (format.unit q) / 2 := by
  have positive' := positive.trans_le above
  -- otherwise the next power of two would have been reached
  have log : floorLog 2 x = floorLog 2 q := by
    have leading := leading_le_round positive' normal
    rw [rounded] at leading
    exact le_antisymm (le_floorLog leading) (le_floorLog ((leading_le positive).trans above))
  have error := (abs_le.mp (format.abs_round_sub_le x)).1
  have same : format.unit x = format.unit q := by rw [unit, unit, log]
  rw [rounded, same] at error
  linarith

theorem round_above (holds : format.Holds q) (positive : 0 < q) (above : q ≤ x)
    (near : x < q + power 2 (format.unit q) / 2) : format.round x = q := by
  have scale := power_two_pos (format.unit q)
  have next := holds.add_unit_le positive
  have log : floorLog 2 x = floorLog 2 q :=
    floorLog_eq ((leading_le positive).trans above) (by linarith)
  apply round_eq_of_unit_eq holds positive (positive.trans_le above)
  · rw [unit, unit, log]
  · rw [abs_of_nonneg (sub_nonneg.mpr above)]
    linarith

/-! Below a number -/

/-- A number below which the units are as large as above it: any but a power of two, or with the least unit. -/
def Regular (format : Format) (q : ℚ) : Prop := q ≠ power 2 (floorLog 2 q) ∨ format.unit q = format.lowest

theorem le_of_round_below (positive : 0 < x) (below : x ≤ q) (rounded : format.round x = q) :
    q ≤ x + power 2 (format.unit q) / 2 := by
  have units : format.unit x ≤ format.unit q :=
    format.unit_le_of_power_le ((leading_le positive).trans below)
  have error := (abs_le.mp (format.abs_round_sub_le x)).2
  rw [rounded] at error
  linarith [power_two_le units]

/-- Below a power of two the interval is half as long. -/
theorem le_of_round_below_power (positive : 0 < x) (below : x < q) (rounded : format.round x = q)
    (irregular : ¬format.Regular q) : q ≤ x + power 2 (format.unit q) / 4 := by
  obtain ⟨leading, normal⟩ := not_or.mp irregular
  rw [not_not] at leading
  have log : floorLog 2 x < floorLog 2 q := by
    apply floorLog_lt positive
    rw [← leading]
    exact below
  have units : format.unit x ≤ format.unit q - 1 := by
    simp only [unit] at normal ⊢
    omega
  have half : power 2 (format.unit q) = 2 * power 2 (format.unit q - 1) := by
    rw [← power_two_succ, sub_add_cancel]
  have error := (abs_le.mp (format.abs_round_sub_le x)).2
  rw [rounded] at error
  linarith [power_two_le units]

theorem Regular.round_below (regular : format.Regular q) (proper : format.Proper) (holds : format.Holds q)
    (positive : 0 < q) (positive' : 0 < x) (below : x ≤ q) (near : q < x + power 2 (format.unit q) / 2) :
    format.round x = q := by
  have scale := power_two_pos (format.unit q)
  apply round_eq_of_unit_eq holds positive positive'
  · have units : format.unit x ≤ format.unit q :=
      format.unit_le_of_power_le ((leading_le positive').trans below)
    obtain other | least := regular
    · -- the number is at least a unit above the leading power of two
      by_cases least : format.unit q = format.lowest
      · have := format.unit_ge_lowest x
        omega
      have fine : format.unit q ≤ floorLog 2 q := by
        have bits := proper.1
        simp only [unit] at least ⊢
        omega
      obtain ⟨n, _, value⟩ := holds.exists_units positive
      obtain ⟨m, _, power_eq⟩ := power_two_multiple fine
      have lower := leading_le positive
      have apart : power 2 (floorLog 2 q) + power 2 (format.unit q) ≤ q := by
        rw [power_eq] at lower other ⊢
        nth_rewrite 2 [value] at lower
        have le : m ≤ n := by exact_mod_cast le_of_mul_le_mul_right lower scale
        have ne : m ≠ n := fun same => other (same ▸ value)
        calc (m : ℚ) * power 2 (format.unit q) + power 2 (format.unit q) =
              ((m + 1 : Nat) : ℚ) * power 2 (format.unit q) := by push_cast; ring
          _ ≤ n * power 2 (format.unit q) :=
              mul_le_mul_of_nonneg_right (by exact_mod_cast (by omega : m + 1 ≤ n)) scale.le
          _ = q := value.symm
      exact le_antisymm units (format.unit_le_of_power_le (by linarith))
    · have := format.unit_ge_lowest x
      omega
  · rw [abs_sub_comm, abs_of_nonneg (sub_nonneg.mpr below)]
    linarith

/-! Reading -/

/-- The magnitude of single precision that an exact one is read as. -/
def readAs (x : ℚ) : ℚ := single.round (double.round x)

theorem double_round_of_holds (holds : single.Holds q) (positive : 0 < q) : double.round q = q := by
  obtain ⟨n, _, value⟩ := holds.exists_units positive
  obtain ⟨m, _, shift⟩ := power_two_multiple (by linarith [double_unit_add_le q] : double.unit q ≤ single.unit q)
  refine round_of_multiple (n := (n * m : Nat)) ?_
  nth_rewrite 1 [value]
  rw [shift]
  push_cast
  ring

theorem readAs_mono (nonneg : 0 ≤ x) (le : x ≤ y) : readAs x ≤ readAs y := by
  have first := round_mono double_proper.1 nonneg le
  exact round_mono single_proper.1 (double.round_nonneg nonneg) first

theorem readAs_of_holds (holds : single.Holds q) (positive : 0 < q) : readAs q = q := by
  rw [readAs, double_round_of_holds holds positive, holds.round_eq]

/-- What lies between two magnitudes that are read as one is read as that one, too. -/
theorem readAs_between (nonneg : 0 ≤ x) {z : ℚ} (left : x ≤ y) (right : y ≤ z) (first : readAs x = q)
    (last : readAs z = q) : readAs y = q :=
  le_antisymm (last ▸ readAs_mono (nonneg.trans left) right) (first ▸ readAs_mono nonneg left)

/-- Double precision is off by a tiny part of a unit of single precision. -/
theorem abs_double_round_sub_le (positive : 0 < x) (le : x ≤ 2 * q) :
    |double.round x - x| ≤ power 2 (single.unit q) / 4096 := by
  have positive' : 0 < q := by linarith
  have upper : x < power 2 (floorLog 2 q + 1 + 1) := by
    rw [power_two_succ]
    linarith [lt_next_power positive']
  have log := floorLog_lt positive upper
  have fine : double.unit x ≤ single.unit q - 12 := by
    rw [single_unit, double_unit]
    omega
  have twelve : power 2 (single.unit q) = power 2 (single.unit q - 12) * 4096 := by
    have factor : power 2 12 = 4096 := by norm_num [power_eq_zpow]
    rw [← factor, ← power_two_add, sub_add_cancel]
  have error := double.abs_round_sub_le x
  linarith [power_two_le fine, power_two_pos (single.unit q - 12)]

section Ends

variable (holds : single.Holds q) (positive : 0 < q)

include holds positive

theorem le_of_readAs_above (above : q ≤ x) (le : x ≤ 2 * q) (read : readAs x = q) :
    x ≤ q + power 2 (single.unit q) / 2 + power 2 (single.unit q) / 4096 := by
  have error := (abs_le.mp (abs_double_round_sub_le (positive.trans_le above) le)).1
  have above' : q ≤ double.round x := by
    have mono := round_mono double_proper.1 positive.le above
    rwa [double_round_of_holds holds positive] at mono
  have normal : single.unit (double.round x) ≤ floorLog 2 (double.round x) := by
    have log := le_floorLog ((holds.range positive).1.trans above')
    rw [single_unit]
    omega
  have bound := le_of_round_above positive above' read normal
  linarith

theorem le_of_not_readAs_above (above : q ≤ x) (le : x ≤ 2 * q) (missed : readAs x ≠ q) :
    q + power 2 (single.unit q) / 2 ≤ x + power 2 (single.unit q) / 4096 := by
  by_contra near
  have error := (abs_le.mp (abs_double_round_sub_le (positive.trans_le above) le)).2
  have above' : q ≤ double.round x := by
    have mono := round_mono double_proper.1 positive.le above
    rwa [double_round_of_holds holds positive] at mono
  exact missed (round_above holds positive above' (by linarith))

theorem double_round_below (positive' : 0 < x) (below : x ≤ q) (half : q ≤ 2 * x) :
    0 < double.round x ∧ double.round x ≤ q ∧ |double.round x - x| ≤ power 2 (single.unit q) / 4096 := by
  have error := abs_double_round_sub_le positive' (by linarith : x ≤ 2 * q)
  have below' : double.round x ≤ q := by
    have mono := round_mono double_proper.1 positive'.le below
    rwa [double_round_of_holds holds positive] at mono
  refine ⟨?_, below', error⟩
  obtain ⟨n, one, value⟩ := holds.exists_units positive
  have unit_le : power 2 (single.unit q) ≤ q := by
    nth_rewrite 2 [value]
    exact le_mul_of_one_le_left (power_two_pos _).le (by exact_mod_cast one)
  linarith [(abs_le.mp error).1]

theorem le_of_readAs_below (positive' : 0 < x) (below : x ≤ q) (half : q ≤ 2 * x) (read : readAs x = q) :
    q ≤ x + power 2 (single.unit q) / 2 + power 2 (single.unit q) / 4096 := by
  obtain ⟨some, below', error⟩ := double_round_below holds positive positive' below half
  have bound := le_of_round_below some below' read
  linarith [(abs_le.mp error).2]

theorem le_of_readAs_below_power (positive' : 0 < x) (below : x ≤ q) (half : q ≤ 2 * x) (read : readAs x = q)
    (irregular : ¬single.Regular q) : q ≤ x + power 2 (single.unit q) / 4 + power 2 (single.unit q) / 4096 := by
  obtain ⟨some, below', error⟩ := double_round_below holds positive positive' below half
  have scale := power_two_pos (single.unit q)
  obtain equal | less := below'.eq_or_lt
  · linarith [(abs_le.mp error).2]
  · have bound := le_of_round_below_power some less read irregular
    linarith [(abs_le.mp error).2]

theorem le_of_not_readAs_below (positive' : 0 < x) (below : x ≤ q) (half : q ≤ 2 * x) (missed : readAs x ≠ q) :
    x + power 2 (single.unit q) / 4 ≤ q + power 2 (single.unit q) / 4096 ∧
      (single.Regular q → x + power 2 (single.unit q) / 2 ≤ q + power 2 (single.unit q) / 4096) := by
  obtain ⟨some, below', error⟩ := double_round_below holds positive positive' below half
  have distance := (abs_le.mp error).1
  constructor
  · by_contra near
    refine missed (round_eq_of_near single_proper holds positive ?_)
    rw [abs_sub_comm, abs_of_nonneg (sub_nonneg.mpr below')]
    linarith
  · intro regular
    by_contra near
    exact missed (regular.round_below single_proper holds positive some below' (by linarith))

end Ends

end Format

end Corvid
