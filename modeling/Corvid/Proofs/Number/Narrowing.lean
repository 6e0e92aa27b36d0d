import Corvid.Proofs.Number.Arithmetic
import Corvid.Proofs.Number.Bits
import Corvid.Proofs.Number.Interval
import Mathlib.Data.Prod.Lex

/-!
From double to single precision. The numbers of a format are those that its encodings stand for. A double becomes the
nearest number of single precision, and of two that are equally near the one whose encoding ends in a zero bit; from
halfway between the largest number and the power of two behind it, it becomes an infinity. Signs are kept, those of
zeros too. Numbers of single precision stay what they are, a negated double becomes the negated number, and two doubles
never change their order.
-/
namespace Corvid

namespace Format

variable {format : Format} {q : ℚ}

theorem Holds.zero (proper : format.Proper) : format.Holds 0 :=
  ⟨0, format.lowest, by positivity, le_rfl, proper.2, by simp⟩

/-- Significand and unit of a magnitude of single precision, as its encoding has them. -/
theorem Holds.exists_canonical (holds : single.Holds q) : ∃ (significand : Nat) (exponent : Int),
    q = significand * power 2 exponent ∧ significand < 2 ^ 24 ∧ -149 ≤ exponent ∧ exponent ≤ 104 ∧
      (2 ^ 24 ≤ 2 * significand ∨ exponent = -149) := by
  obtain zero | positive := holds.nonneg.eq_or_lt
  · exact ⟨0, -149, by simp [← zero], by norm_num, le_rfl, by norm_num, .inr rfl⟩
  obtain ⟨n, _, value⟩ := holds.exists_units positive
  have scale := power_two_pos (single.unit q)
  have whole : q / power 2 (single.unit q) = n := (div_eq_iff scale.ne').mpr value
  refine ⟨n, single.unit q, value, ?_, single.unit_ge_lowest q, unit_le_last single_proper positive holds.lt_limit, ?_⟩
  · have short : q / power 2 (single.unit q) < power 2 (24 : Nat) := scaled_lt positive
    rw [whole, power_two_natCast] at short
    exact_mod_cast short
  · by_cases least : single.unit q = single.lowest
    · exact .inr least
    · have full : power 2 (23 : Nat) ≤ q / power 2 (single.unit q) := scaled_ge positive least
      rw [whole, power_two_natCast] at full
      have full' : 2 ^ 23 ≤ n := by exact_mod_cast full
      exact .inl (by omega)

end Format

namespace Number

open Format

/-- The numbers of a format: those that its encodings stand for. -/
def InFormat (number : Number) (format : Format) : Prop :=
  ∃ tag bits, bits < 2 ^ (format.exponentBits + format.precision) ∧ ofBits format tag bits = number

/-! Encodings -/

theorem InFormat.unsigned {number : Number} {format : Format} (encoded : number.InFormat format) :
    number.Unsigned := by
  obtain ⟨tag, bits, _, rfl⟩ := encoded
  unfold ofBits
  dsimp only
  split
  · split <;> trivial
  · split
    · exact mul_nonneg (Nat.cast_nonneg _) (power_two_pos _).le
    · exact mul_nonneg (Nat.cast_nonneg _) (power_two_pos _).le

/-- Every magnitude of single precision has an encoding with either sign. -/
theorem exists_encoding {q : ℚ} (holds : single.Holds q) (negative : Bool) (tag : Nat) :
    ∃ bits < 2 ^ 32, ofBits .single tag bits = .finite negative q := by
  obtain ⟨n, e, rfl, short, low, high, full⟩ := holds.exists_canonical
  obtain ⟨k, rfl⟩ : ∃ k : Nat, e = k - 149 := ⟨(e + 149).toNat, by omega⟩
  obtain ⟨bits, size, unsigned, sign⟩ : ∃ bits < 2 ^ 32, bits % 2 ^ 31 = k * 2 ^ 23 + n ∧
      (bits / 2 ^ 31 % 2 == 1) = negative := by
    cases negative with
    | false => exact ⟨k * 2 ^ 23 + n, by omega, by omega, by rw [beq_eq_false_iff_ne]; omega⟩
    | true => exact ⟨2 ^ 31 + k * 2 ^ 23 + n, by omega, by omega, by rw [beq_iff_eq]; omega⟩
  have finite : bits / 2 ^ 23 % 2 ^ 8 ≠ 255 := by omega
  obtain ⟨n', e', number, short', low', _, full', same⟩ := ofBits_single finite tag
  -- fields are not ambiguous: a unit above the least one has a full significand
  have exponents : e' = k - 149 := by omega
  have significands : n' = n := by omega
  refine ⟨bits, size, ?_⟩
  rw [number, sign, exponents, significands]

theorem inFormat_single_iff {negative : Bool} {q : ℚ} :
    (finite negative q).InFormat .single ↔ single.Holds q := by
  constructor
  · rintro ⟨tag, bits, _, encoded⟩
    by_cases top : bits / 2 ^ 23 % 2 ^ 8 = 255
    · have special : bits / Nat.pow 2 single.trailingBits % Nat.pow 2 single.exponentBits = single.topExponent := top
      rw [ofBits, if_pos special] at encoded
      split at encoded <;> cases encoded
    · obtain ⟨n, e, number, short, low, high, _⟩ := ofBits_single top tag
      cases number.symm.trans encoded
      exact ⟨n, e, short, low, high, rfl⟩
  · intro holds
    obtain ⟨bits, size, number⟩ := exists_encoding holds negative 0
    exact ⟨0, bits, size, number⟩

/-- The last bit of an encoding is that of the significand. -/
theorem even_magnitudeBits_iff {q : ℚ} (holds : single.Holds q) :
    magnitudeBits .single q % 2 = 0 ↔ single.HoldsEven q := by
  obtain ⟨n, e, rfl, short, low, high, full⟩ := holds.exists_canonical
  have bits : magnitudeBits .single (n * power 2 e) = (e - -149).toNat * 2 ^ 23 + n :=
    magnitudeBits_mul_power short low full
  have parity : magnitudeBits .single (n * power 2 e) % 2 = n % 2 := by omega
  rw [parity]
  constructor
  · intro even
    have halves : 2 * (n / 2) = n := by omega
    exact ⟨n / 2, e, halves.symm ▸ short, low, high, by rw [halves]⟩
  · rintro ⟨half, e', short', low', _, value⟩
    change 2 * half < 2 ^ 24 at short'
    change -149 ≤ e' at low'
    obtain finer | coarser := Int.lt_or_le e' e
    · -- a full significand has no room for another bit
      obtain ⟨factor, some, shift⟩ := power_two_multiple (by omega : e' + 1 ≤ e)
      rw [shift, power_two_succ, ← mul_assoc, ← mul_assoc] at value
      have equal : n * factor * 2 = 2 * half := by exact_mod_cast mul_right_cancel₀ (power_two_pos e').ne' value
      have larger : n ≤ n * factor := Nat.le_mul_of_pos_right n some
      omega
    · obtain ⟨factor, _, shift⟩ := power_two_multiple coarser
      rw [shift, ← mul_assoc] at value
      have equal : n = 2 * half * factor := by exact_mod_cast mul_right_cancel₀ (power_two_pos e).ne' value
      rw [equal, Nat.mul_assoc, Nat.mul_mod_right]

/-! Correct rounding of signed numbers -/

/-- Of the finite numbers of single precision this one is the nearest to `z`. If a different value is equally near, the
encoding ends in a zero bit. -/
structure NearestTo (z : ℚ) (negative : Bool) (magnitude : ℚ) : Prop where
  encoded : (finite negative magnitude).InFormat .single
  closest : ∀ sign other, (finite sign other).InFormat .single →
    |signed negative magnitude - z| ≤ |signed sign other - z|
  even_of_tie : ∀ sign other, (finite sign other).InFormat .single → signed sign other ≠ signed negative magnitude →
    |signed sign other - z| = |signed negative magnitude - z| → magnitudeBits .single magnitude % 2 = 0

/-- What a number becomes in single precision. A finite one keeps its sign, also if nothing else is left of it. -/
inductive NarrowsTo : Number → Number → Prop where
  | nan (tag : Nat) : NarrowsTo (.nan tag) (.nan tag)
  | infinite (negative : Bool) : NarrowsTo (.infinite negative) (.infinite negative)
  | overflow (negative : Bool) {q : ℚ} (reached : single.halfway ≤ q) :
      NarrowsTo (.finite negative q) (.infinite negative)
  | nearest (negative : Bool) {q magnitude : ℚ} (within : q < single.halfway)
      (nearest : NearestTo (signed negative q) negative magnitude) :
      NarrowsTo (.finite negative q) (.finite negative magnitude)

variable {negative sign : Bool} {p q : ℚ}

theorem signed_false (q : ℚ) : signed false q = q := rfl

theorem signed_true (q : ℚ) : signed true q = -q := rfl

theorem abs_signed_sub (negative : Bool) (p q : ℚ) : |signed negative p - signed negative q| = |p - q| := by
  cases negative with
  | false => rw [signed_false, signed_false]
  | true => rw [signed_true, signed_true, neg_sub_neg, abs_sub_comm]

theorem abs_signed_sub_of_ne (opposite : sign ≠ negative) (nonneg : 0 ≤ p) (nonneg' : 0 ≤ q) :
    |signed sign p - signed negative q| = p + q := by
  have sum := abs_of_nonneg (add_nonneg nonneg nonneg')
  cases sign <;> cases negative
  · exact absurd rfl opposite
  · rw [signed_false, signed_true, sub_neg_eq_add, sum]
  · rw [signed_true, signed_false, ← neg_add', abs_neg, sum]
  · exact absurd rfl opposite

/-- Magnitudes are at least as near as the numbers with their signs. -/
theorem abs_sub_le_signed (sign negative : Bool) (nonneg : 0 ≤ p) (nonneg' : 0 ≤ q) :
    |p - q| ≤ |signed sign p - signed negative q| := by
  calc |p - q| = |(|signed sign p| - |signed negative q|)| := by rw [abs_signed sign nonneg, abs_signed negative nonneg']
    _ ≤ |signed sign p - signed negative q| := abs_abs_sub_abs_le _ _

theorem signed_zero (negative : Bool) : signed negative 0 = 0 := by
  cases negative with
  | false => rfl
  | true => rw [signed_true, neg_zero]

theorem signed_injective (negative : Bool) : Function.Injective (signed negative) := by
  cases negative with
  | false => exact fun _ _ same => same
  | true => exact neg_injective

/-- Whether numbers of either sign or magnitudes are compared, the nearest is the same. -/
theorem nearestTo_iff (nonneg : 0 ≤ q) :
    NearestTo (signed negative q) negative p ↔ single.Nearest q p := by
  constructor
  · intro nearest
    have holds := inFormat_single_iff.mp nearest.encoded
    refine ⟨holds, ?_, ?_⟩
    · intro other holds'
      have closest := nearest.closest negative other (inFormat_single_iff.mpr holds')
      rwa [abs_signed_sub, abs_signed_sub] at closest
    · intro other holds' distinct tie
      apply (even_magnitudeBits_iff holds).mp
      apply nearest.even_of_tie negative other (inFormat_single_iff.mpr holds')
      · exact (signed_injective negative).ne distinct
      · rw [abs_signed_sub, abs_signed_sub, tie]
  · intro nearest
    refine ⟨inFormat_single_iff.mpr nearest.holds, ?_, ?_⟩
    · intro sign other encoded
      have holds := inFormat_single_iff.mp encoded
      rw [abs_signed_sub]
      exact (nearest.closest other holds).trans (abs_sub_le_signed sign negative holds.nonneg nonneg)
    · intro sign other encoded distinct tie
      have holds := inFormat_single_iff.mp encoded
      have farther := abs_sub_le_signed sign negative holds.nonneg nonneg
      rw [abs_signed_sub] at tie
      rw [tie] at farther
      apply (even_magnitudeBits_iff nearest.holds).mpr
      apply nearest.even_of_tie other holds _ (le_antisymm farther (nearest.closest other holds))
      -- with the opposite sign the same magnitude is farther away than zero
      rintro rfl
      have opposite : sign ≠ negative := fun same => distinct (same ▸ rfl)
      have zero := nearest.closest 0 (Holds.zero single_proper)
      rw [zero_sub, abs_neg, abs_of_nonneg nonneg] at zero
      rw [abs_signed_sub_of_ne opposite holds.nonneg nonneg] at tie
      have none : other = 0 := le_antisymm (by linarith) holds.nonneg
      rw [none, signed_zero, signed_zero] at distinct
      exact distinct rfl

/-- Every number has exactly one narrowed form, which rounding finds. -/
theorem narrowsTo_iff {number result : Number} (unsigned : number.Unsigned) :
    NarrowsTo number result ↔ result = number.roundTo .single := by
  cases number with
  | nan tag =>
    constructor
    · rintro ⟨⟩
      rfl
    · rintro rfl
      exact .nan tag
  | infinite negative =>
    constructor
    · rintro ⟨⟩
      rfl
    · rintro rfl
      exact .infinite negative
  | finite negative q =>
    have nonneg : 0 ≤ q := unsigned
    rw [roundTo, ← rounds_single_iff nonneg]
    constructor
    · intro narrows
      cases narrows with
      | overflow _ reached => exact .overflow reached
      | nearest _ within nearest => exact .finite within ((nearestTo_iff nonneg).mp nearest)
    · intro rounds
      cases rounds with
      | overflow reached => exact .overflow negative reached
      | finite within nearest => exact .nearest negative within ((nearestTo_iff nonneg).mpr nearest)

/-! Identity and sign -/

theorem roundTo_of_inFormat {number : Number} (encoded : number.InFormat .single) : number.roundTo .single = number := by
  cases number with
  | finite negative q =>
    have holds := inFormat_single_iff.mp encoded
    have below : q < power 2 single.limit := holds.lt_limit
    rw [roundTo, fit, holds.round_eq, if_neg (not_le.mpr below)]
  | _ => rfl

theorem roundTo_negated (format : Format) (number : Number) :
    number.negated.roundTo format = (number.roundTo format).negated := by
  cases number with
  | finite negative q =>
    rw [negated, roundTo, roundTo, fit, fit]
    split <;> rfl
  | _ => rfl

/-! Order -/

/-- Order by value, false if either side is a NaN; the two zeros are equal. -/
def atMost (left right : Number) : Bool := left.below right || left.equals right

theorem atMost_iff {left right : Number} : left.atMost right = true ↔
    ∃ a b, left.rank? = some a ∧ right.rank? = some b ∧ toLex a ≤ toLex b := by
  unfold atMost below equals
  cases left.rank? with
  | none => simp
  | some a =>
    cases right.rank? with
    | none => simp
    | some b =>
      simp [le_iff_lt_or_eq, Prod.Lex.toLex_lt_toLex, Prod.ext_iff]

/-- Where a signed magnitude stands in the order of all numbers, if from the limit on there are only infinities. -/
def limitedRank (format : Format) (z : ℚ) : Int × ℚ :=
  if power 2 format.limit ≤ z then (1, 0)
  else if z ≤ -power 2 format.limit then (-1, 0)
  else (0, z)

theorem rank?_fit (format : Format) (negative : Bool) (nonneg : 0 ≤ q) :
    (format.fit negative q).rank? = some (limitedRank format (signed negative (format.round q))) := by
  have limit := power_two_pos format.limit
  have rounded := format.round_nonneg nonneg
  unfold fit limitedRank
  by_cases reached : power 2 format.limit ≤ format.round q
  · rw [if_pos reached]
    cases negative with
    | false => rw [signed_false, if_pos reached, rank?]
    | true => rw [signed_true, if_neg (by linarith), if_pos (neg_le_neg reached), rank?]
  · rw [if_neg reached, rank?]
    cases negative with
    | false => rw [signed_false, if_neg reached, if_neg (by linarith)]
    | true => rw [signed_true, if_neg (by linarith), if_neg (by linarith)]

theorem limitedRank_mono (format : Format) {z w : ℚ} (le : z ≤ w) :
    toLex (limitedRank format z) ≤ toLex (limitedRank format w) := by
  have limit := power_two_pos format.limit
  rw [Prod.Lex.toLex_le_toLex]
  unfold limitedRank
  split_ifs
  -- three places for the smaller number, and for each of them three for the larger one
  · exact .inr ⟨rfl, le_rfl⟩
  · linarith
  · linarith
  · exact .inl (by norm_num)
  · exact .inr ⟨rfl, le_rfl⟩
  · exact .inl (by norm_num)
  · exact .inl (by norm_num)
  · linarith
  · exact .inr ⟨rfl, le⟩

theorem signed_round_mono {format : Format} (bits : 1 ≤ format.precision) (nonneg : 0 ≤ p) (nonneg' : 0 ≤ q)
    (le : signed sign p ≤ signed negative q) :
    signed sign (format.round p) ≤ signed negative (format.round q) := by
  have rounded := format.round_nonneg nonneg
  have rounded' := format.round_nonneg nonneg'
  cases sign <;> cases negative
  · exact round_mono bits nonneg le
  · -- a positive number at most a negative one: both are zero
    rw [signed_false, signed_true] at le
    have zero : p = 0 := by linarith
    have zero' : q = 0 := by linarith
    rw [zero, zero', Format.round_zero, signed_zero, signed_zero]
  · rw [signed_true, signed_false]
    linarith
  · exact neg_le_neg (round_mono bits nonneg' (neg_le_neg_iff.mp le))

theorem fit_mono {format : Format} (bits : 1 ≤ format.precision) (nonneg : 0 ≤ p) (nonneg' : 0 ≤ q)
    (le : signed sign p ≤ signed negative q) : (format.fit sign p).atMost (format.fit negative q) = true :=
  atMost_iff.mpr ⟨_, _, rank?_fit format sign nonneg, rank?_fit format negative nonneg',
    limitedRank_mono format (signed_round_mono bits nonneg nonneg' le)⟩

theorem atMost_finite_iff : (finite sign p).atMost (finite negative q) = true ↔ signed sign p ≤ signed negative q := by
  rw [atMost_iff]
  simp [rank?, Prod.Lex.toLex_le_toLex]

theorem infinite_atMost_fit (format : Format) (negative : Bool) (q : ℚ) :
    (infinite true).atMost (format.fit negative q) = true := by
  rw [fit]
  split
  · cases negative <;> rfl
  · rfl

theorem fit_atMost_infinite (format : Format) (negative : Bool) (q : ℚ) :
    (format.fit negative q).atMost (infinite false) = true := by
  rw [fit]
  split
  · cases negative <;> rfl
  · rfl

theorem roundTo_mono {format : Format} (bits : 1 ≤ format.precision) {left right : Number} (unsigned : left.Unsigned)
    (unsigned' : right.Unsigned) (le : left.atMost right = true) :
    (left.roundTo format).atMost (right.roundTo format) = true := by
  cases left with
  | nan tag => cases le
  | infinite sign =>
    cases right with
    | finite negative q =>
      cases sign with
      | false => cases le
      | true => exact infinite_atMost_fit format negative q
    | _ => exact le
  | finite sign p =>
    cases right with
    | nan tag => cases le
    | infinite negative =>
      cases negative with
      | false => exact fit_atMost_infinite format sign p
      | true => cases le
    | finite negative q => exact fit_mono bits unsigned unsigned' (atMost_finite_iff.mp le)

/-- Doubles in single precision: each becomes its correctly rounded number, with its sign, and no other. Numbers of
single precision, infinities and NaNs are not changed, negation may come before or after, and the order is kept. -/
theorem narrowing_laws {x y : Number} (double : x.InFormat .double) (double' : y.InFormat .double) :
    (∀ result, NarrowsTo x result ↔ result = x.roundTo .single) ∧
    (∀ number : Number, number.InFormat .single → number.roundTo .single = number) ∧
    x.negated.roundTo .single = (x.roundTo .single).negated ∧
    (x.atMost y = true → (x.roundTo .single).atMost (y.roundTo .single) = true) :=
  ⟨fun _ => narrowsTo_iff double.unsigned, fun _ => roundTo_of_inFormat, roundTo_negated .single x,
    roundTo_mono (by decide) double.unsigned double'.unsigned⟩

/-- A midpoint that goes down to the even neighbour, and the last midpoint, which goes up to infinity. -/
theorem narrowing_laws_midpoints :
    (finite false 16777217).InFormat .double ∧
    (finite false 340282356779733661637539395458142568448).InFormat .double ∧
    (finite false 16777216).InFormat .single ∧
    (∀ result, NarrowsTo (.finite false 16777217) result ↔ result = .finite false 16777216) ∧
    (finite false 16777216).roundTo .single = .finite false 16777216 ∧
    (finite true 16777217).roundTo .single = .finite true 16777216 ∧
    (finite false 16777216).atMost (.infinite false) = true := by
  have double : (finite false 16777217).InFormat .double := ⟨0, 0x4170000010000000, by decide, by decide +kernel⟩
  have double' : (finite false 340282356779733661637539395458142568448).InFormat .double :=
    ⟨0, 0x47effffff0000000, by decide, by decide +kernel⟩
  have encoded : (finite false 16777216).InFormat .single := ⟨0, 0x4b800000, by decide, by decide +kernel⟩
  have rounded : (finite false 16777217).roundTo .single = .finite false 16777216 := by decide +kernel
  have rounded' : (finite false 340282356779733661637539395458142568448).roundTo .single = .infinite false := by
    decide +kernel
  obtain ⟨correct, identity, odd, order⟩ := narrowing_laws double double'
  rw [rounded] at correct odd order
  rw [rounded'] at order
  exact ⟨double, double', encoded, correct, identity _ encoded, odd, order (by decide +kernel)⟩

end Number

end Corvid
