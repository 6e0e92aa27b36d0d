import Corvid.Proofs.Eval.Operators
import Mathlib.Algebra.Ring.TransferInstance
import Mathlib.Data.BitVec
import Mathlib.Data.Int.ModEq

/-!
Whole numbers of 32 bits. A wrapped number is the only one in range that differs from the exact result by a multiple of
`2 ^ 32`, so sums, differences and products are those of a commutative ring: the patterns of 32 bits, read as signed
numbers. Quotients go toward zero, and of all quotients of numbers in range a single one is out of range itself.
-/
namespace Corvid

namespace Integer

/-- A whole number that fits 32 bits with a sign. -/
@[ext] structure Word where
  value : Int
  lower : -2 ^ 31 ≤ value
  upper : value < 2 ^ 31

theorem fits_iff_range {n : Int} : fits n = true ↔ -2 ^ 31 ≤ n ∧ n < 2 ^ 31 := by
  rw [fits_iff, least, greatest]
  omega

/-! Wrapping -/

/-- The modulus shifted to the least number is the balanced one. -/
theorem wrap_eq_bmod (n : Int) : wrap n = n.bmod (2 ^ 32) := by
  rw [eq_comm, Int.bmod_eq_iff (by decide), wrap, least]
  omega

/-- Of the numbers in range, the wrapped one is the one that is congruent. -/
theorem wrap_eq_iff {n m : Int} : wrap n = m ↔ (-2 ^ 31 ≤ m ∧ m < 2 ^ 31) ∧ m ≡ n [ZMOD 2 ^ 32] := by
  rw [wrap_eq_bmod, Int.bmod_eq_iff (by decide), Int.modEq_comm, Int.modEq_iff_dvd, ← and_assoc]
  refine and_congr_left fun _ => ?_
  omega

theorem wrap_eq_self_iff (n : Int) : wrap n = n ↔ fits n = true := by
  rw [wrap_eq_iff, fits_iff_range]
  exact and_iff_left rfl

namespace Word

/-- A number reduced to the range. -/
def wrapped (n : Int) : Word where
  value := wrap n
  lower := (wrap_eq_iff.mp rfl).1.1
  upper := (wrap_eq_iff.mp rfl).1.2

theorem eq_wrapped_iff {n : Int} (word : Word) : word = wrapped n ↔ word.value ≡ n [ZMOD 2 ^ 32] := by
  rw [Word.ext_iff, eq_comm]
  exact wrap_eq_iff.trans (and_iff_right ⟨word.lower, word.upper⟩)

theorem wrap_value (word : Word) : wrap word.value = word.value :=
  wrap_eq_iff.mpr ⟨⟨word.lower, word.upper⟩, rfl⟩

/-! The ring of words -/

/-- A number in range is the signed reading of one pattern of 32 bits. -/
def bits : Word ≃ BitVec 32 where
  toFun word := BitVec.ofInt 32 word.value
  invFun pattern := ⟨pattern.toInt, pattern.le_toInt, pattern.toInt_lt⟩
  left_inv word := Word.ext ((BitVec.toInt_ofInt _).trans ((wrap_eq_bmod _).symm.trans word.wrap_value))
  right_inv _ := BitVec.ofInt_toInt

instance : CommRing Word := bits.commRing

variable (x y : Word)

theorem toInt_bits : (bits x).toInt = x.value := congrArg value (bits.symm_apply_apply x)

theorem add_eq : x + y = wrapped (x.value + y.value) := by
  apply Word.ext
  change (bits x + bits y).toInt = _
  rw [BitVec.toInt_add, toInt_bits, toInt_bits, ← wrap_eq_bmod]
  rfl

theorem sub_eq : x - y = wrapped (x.value - y.value) := by
  apply Word.ext
  change (bits x - bits y).toInt = _
  rw [BitVec.toInt_sub, toInt_bits, toInt_bits, ← wrap_eq_bmod]
  rfl

theorem mul_eq : x * y = wrapped (x.value * y.value) := by
  apply Word.ext
  change (bits x * bits y).toInt = _
  rw [BitVec.toInt_mul, toInt_bits, toInt_bits, ← wrap_eq_bmod]
  rfl

end Word

/-! Quotients -/

/-- The quotient toward zero: the remainder is smaller than the divisor, and has the sign of what is divided unless it
is zero. -/
def IsQuotient (n divisor quotient : Int) : Prop :=
  ∃ remainder, n = divisor * quotient + remainder ∧ |remainder| < |divisor| ∧
    (remainder = 0 ∨ remainder.sign = n.sign)

theorem isQuotient_tdiv {n divisor : Int} (nonzero : divisor ≠ 0) : IsQuotient n divisor (n.tdiv divisor) := by
  refine ⟨n.tmod divisor, (Int.mul_tdiv_add_tmod n divisor).symm, ?_, ?_⟩
  · rw [Int.abs_eq_natAbs, Int.abs_eq_natAbs, Int.natAbs_tmod]
    exact_mod_cast Nat.mod_lt _ (Int.natAbs_pos.mpr nonzero)
  · rw [← Int.sign_eq_zero_iff_zero, Int.sign_tmod]
    split
    · exact .inl rfl
    · exact .inr rfl

theorem IsQuotient.eq_tdiv {n divisor quotient : Int} (known : IsQuotient n divisor quotient) :
    quotient = n.tdiv divisor := by
  obtain ⟨remainder, whole, smaller, sign⟩ := known
  have nonzero : divisor ≠ 0 := by
    rintro rfl
    exact absurd smaller (not_lt.mpr (abs_nonneg remainder))
  rw [Int.abs_eq_natAbs divisor, abs_lt] at smaller
  -- the remainder is on the same side of zero as what is divided
  obtain up | down := le_total 0 n
  · have side : 0 ≤ remainder := by
      obtain rfl | same := sign
      · exact le_rfl
      · rwa [← Int.sign_nonneg_iff, same, Int.sign_nonneg_iff]
    exact ((Int.tdiv_tmod_unique up nonzero).mpr ⟨by rw [whole, add_comm], side, smaller.2⟩).1.symm
  · have side : remainder ≤ 0 := by
      obtain rfl | same := sign
      · exact le_rfl
      · rwa [← Int.sign_nonpos_iff, same, Int.sign_nonpos_iff]
    exact ((Int.tdiv_tmod_unique' down nonzero).mpr ⟨by rw [whole, add_comm], smaller.1, side⟩).1.symm

/-- The quotient of the sizes, with a sign where those of the numbers differ, is the one toward zero. -/
theorem quotient_eq_wrap_tdiv (n divisor : Int) : quotient n divisor = wrap (n.tdiv divisor) := by
  have nonneg (m : Nat) : ¬Int.ofNat m < 0 := Int.not_lt.mpr (Int.natCast_nonneg m)
  have negative (m : Nat) : Int.negSucc m < 0 := Int.negSucc_lt_zero m
  cases n with
  | ofNat a =>
    cases divisor with
    | ofNat b => exact congrArg wrap (if_pos (iff_of_false (nonneg a) (nonneg b)))
    | negSucc b => exact congrArg wrap (if_neg fun same => nonneg a (same.mpr (negative b)))
  | negSucc a =>
    cases divisor with
    | ofNat b => exact congrArg wrap (if_neg fun same => nonneg b (same.mp (negative a)))
    | negSucc b => exact congrArg wrap (if_pos (iff_of_true (negative a) (negative b)))

/-- Only the least number by minus one leaves the range. -/
theorem tdiv_range {x y : Word} (inside : ¬(x.value = -2 ^ 31 ∧ y.value = -1)) :
    -2 ^ 31 ≤ x.value.tdiv y.value ∧ x.value.tdiv y.value < 2 ^ 31 := by
  have lower := x.lower
  have upper := x.upper
  obtain minus | one | large : y.value = -1 ∨ y.value = 1 ∨ y.value.natAbs ≠ 1 := by omega
  · rw [minus, Int.tdiv_neg, Int.tdiv_one]
    omega
  · rw [one, Int.tdiv_one]
    exact ⟨lower, upper⟩
  · have half : (x.value.tdiv y.value).natAbs ≤ x.value.natAbs / 2 := by
      rw [Int.natAbs_tdiv]
      obtain zero | more : y.value.natAbs = 0 ∨ 2 ≤ y.value.natAbs := by omega
      · rw [zero]
        exact (Nat.div_zero _).trans_le (Nat.zero_le _)
      · exact Nat.div_le_div_left more (by decide)
    omega

end Integer

/-! Operators -/

/-- The operators that reduce an exact result to the range. -/
inductive Operator.Exact : Operator → (Int → Int → Int) → Prop where
  | add : Exact .add (· + ·)
  | sub : Exact .sub (· - ·)
  | mul : Exact .mul (· * ·)

open Integer

theorem arithmetic_of_integers (op : Operator) (fresh : Nat) (n m : Int) :
    arithmetic op fresh (.int n) (.int m) = (op.onIntegers n m).map .int := by
  cases op <;> rfl

theorem Operator.Exact.arithmetic_eq {op : Operator} {ideal : Int → Int → Int} (known : op.Exact ideal) (fresh : Nat)
    (n m : Int) : arithmetic op fresh (.int n) (.int m) = .ok (.int (Word.wrapped (ideal n m)).value) := by
  cases known <;> rfl

theorem arithmetic_div_zero_iff (fresh : Nat) (n m : Int) :
    arithmetic .div fresh (.int n) (.int m) = .error .zeroDivision ↔ m = 0 := by
  rw [arithmetic_of_integers, Operator.onIntegers]
  split
  · next zero => exact iff_of_true rfl zero
  · next nonzero => exact iff_of_false (by rintro ⟨⟩) nonzero

theorem arithmetic_div {n m : Int} (nonzero : m ≠ 0) (fresh : Nat) :
    arithmetic .div fresh (.int n) (.int m) = .ok (.int (Word.wrapped (n.tdiv m)).value) := by
  rw [arithmetic_of_integers, Operator.onIntegers, if_neg nonzero, quotient_eq_wrap_tdiv]
  rfl

/-- Arithmetic on whole numbers is that of 32 bits in two's complement. Sums, differences and products are the only
numbers in range that are congruent to the exact results, and the operations of a commutative ring. Quotients go toward
zero, except that of the least number by minus one, which wraps around, and only a zero divides nothing. Wrapping keeps
the numbers in range and no others. -/
theorem arithmetic_words :
    (∀ (op : Operator) (ideal : Int → Int → Int), op.Exact ideal → ∀ (fresh : Nat) (x y : Word),
      ∃ result : Word, arithmetic op fresh (.int x.value) (.int y.value) = .ok (.int result.value) ∧
        ∀ other : Word, other.value ≡ ideal x.value y.value [ZMOD 2 ^ 32] ↔ other = result) ∧
    (∃ _ring : CommRing Word, (0 : Word).value = 0 ∧ (1 : Word).value = 1 ∧ ∀ (fresh : Nat) (x y : Word),
      arithmetic .add fresh (.int x.value) (.int y.value) = .ok (.int (x + y).value) ∧
      arithmetic .sub fresh (.int x.value) (.int y.value) = .ok (.int (x - y).value) ∧
      arithmetic .mul fresh (.int x.value) (.int y.value) = .ok (.int (x * y).value)) ∧
    (∀ (fresh : Nat) (x y : Word),
      arithmetic .div fresh (.int x.value) (.int y.value) = .error .zeroDivision ↔ y.value = 0) ∧
    (∀ (fresh : Nat) (x y : Word), y.value ≠ 0 →
      ∃ result : Word, arithmetic .div fresh (.int x.value) (.int y.value) = .ok (.int result.value) ∧
        (x.value = -2 ^ 31 ∧ y.value = -1 → result.value = -2 ^ 31) ∧
        (¬(x.value = -2 ^ 31 ∧ y.value = -1) →
          ∀ other, IsQuotient x.value y.value other ↔ other = result.value)) ∧
    ∀ n, wrap n = n ↔ fits n = true := by
  refine ⟨fun op ideal known fresh x y => ?_, ⟨inferInstance, rfl, rfl, fun fresh x y => ?_⟩,
    fun fresh x y => arithmetic_div_zero_iff fresh _ _, fun fresh x y nonzero => ?_, wrap_eq_self_iff⟩
  · exact ⟨_, known.arithmetic_eq fresh _ _, fun other => other.eq_wrapped_iff.symm⟩
  · rw [Word.add_eq, Word.sub_eq, Word.mul_eq]
    exact ⟨rfl, rfl, rfl⟩
  · refine ⟨_, arithmetic_div nonzero fresh, ?_, fun inside other => ?_⟩
    · rintro ⟨least, minus⟩
      rw [least, minus]
      rfl
    · have same : (Word.wrapped (x.value.tdiv y.value)).value = x.value.tdiv y.value :=
        wrap_eq_iff.mpr ⟨tdiv_range inside, rfl⟩
      rw [same]
      constructor
      · exact IsQuotient.eq_tdiv
      · rintro rfl
        exact isQuotient_tdiv nonzero

/-- A sum that wraps around, the quotient that wraps around, and a quotient of a negative number. -/
theorem arithmetic_words_extremes :
    (∃ result : Word, arithmetic .add 0 (.int 2147483647) (.int 1) = .ok (.int result.value) ∧
      ∀ other : Word, other.value ≡ 2147483647 + 1 [ZMOD 2 ^ 32] ↔ other = result) ∧
    (∃ result : Word, arithmetic .div 0 (.int (-2147483648)) (.int (-1)) = .ok (.int result.value) ∧
      result.value = -2147483648) ∧
    ∃ result : Word, arithmetic .div 0 (.int (-7)) (.int 2) = .ok (.int result.value) ∧
      ∀ other, IsQuotient (-7) 2 other ↔ other = result.value := by
  let word (n : Int) (lower : -2 ^ 31 ≤ n) (upper : n < 2 ^ 31) : Word := ⟨n, lower, upper⟩
  refine ⟨arithmetic_words.1 .add _ .add 0 (word 2147483647 (by decide) (by decide)) (word 1 (by decide) (by decide)),
    ?_, ?_⟩
  · obtain ⟨result, computed, wraps, _⟩ := arithmetic_words.2.2.2.1 0 (word (-2147483648) (by decide) (by decide))
      (word (-1) (by decide) (by decide)) (by decide)
    exact ⟨result, computed, wraps ⟨rfl, rfl⟩⟩
  · obtain ⟨result, computed, _, only⟩ := arithmetic_words.2.2.2.1 0 (word (-7) (by decide) (by decide))
      (word 2 (by decide) (by decide)) (by decide)
    exact ⟨result, computed, only (by decide)⟩

end Corvid
