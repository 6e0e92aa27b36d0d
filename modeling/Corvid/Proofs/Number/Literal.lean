import Corvid.Proofs.Eval.Spelling
import Corvid.Proofs.Number.Twice

/-!
The numbers that decimals stand for. A literal is read as the nearest double and then rounded to single precision, so it
stands for the number nearest to what is written, unless that double is not what is written but halfway between two
neighbours in single precision. Then the even one of the two is taken, which may be the farther one.
-/
namespace Corvid

namespace Decimal

/-! How decimals are written -/

/-- A sign or nothing, and whether it is a minus. -/
inductive Sign : List Char → Bool → Prop where
  | absent : Sign [] false
  | plus : Sign ['+'] false
  | minus : Sign ['-'] true

/-- An exponent or nothing, and the power of ten that it stands for. -/
inductive Scale : List Char → Int → Prop where
  | absent : Scale [] 0
  | written {letter : Char} {sign digits : List Char} {negative : Bool} (known : letter = 'e' ∨ letter = 'E')
      (signed : Sign sign negative) (number : Token.Digits digits) :
      Scale (letter :: (sign ++ digits)) (if negative then -(ofDigits digits : Int) else ofDigits digits)

/-- The texts of decimals with their sign and exact magnitude: digits, of which there is at least one, with a point
before, between or behind them or without one, and an optional exponent. -/
inductive Written : List Char → Bool → ℚ → Prop where
  | intro {sign whole point fraction exponent : List Char} {negative : Bool} {scale : Int}
      (signed : Sign sign negative) (digital : ∀ c ∈ whole, isDigit c = true)
      (digital' : ∀ c ∈ fraction, isDigit c = true) (some : whole ++ fraction ≠ [])
      (pointed : point = ['.'] ∨ point = [] ∧ fraction = []) (scaled : Scale exponent scale) :
      Written (sign ++ (whole ++ (point ++ (fraction ++ exponent)))) negative
        (ofDigits (whole ++ fraction) * power 10 (scale - fraction.length))

theorem Sign.takeSign_append {sign rest : List Char} {negative : Bool} (signed : Sign sign negative)
    (unsigned : takeSign rest = (false, rest)) : takeSign (sign ++ rest) = (negative, rest) := by
  cases signed with
  | absent => exact unsigned
  | plus | minus => rfl

theorem takeSign_spec (text : List Char) : ∃ sign, text = sign ++ (takeSign text).2 ∧ Sign sign (takeSign text).1 := by
  unfold takeSign
  split
  · exact ⟨['-'], rfl, .minus⟩
  · exact ⟨['+'], rfl, .plus⟩
  · exact ⟨[], rfl, .absent⟩

theorem integer?_spec {text digits : List Char} {negative : Bool} (read : integer? text = some (negative, digits)) :
    takeSign text = (negative, digits) ∧ Token.Digits digits := by
  unfold integer? at read
  generalize takeSign text = parts at read ⊢
  obtain ⟨sign, rest⟩ := parts
  dsimp only at read
  split at read
  · cases read
  · next digital =>
    cases read
    have number : digits ≠ [] ∧ ∀ c ∈ digits, isDigit c = true := by simpa using digital
    exact ⟨rfl, number⟩

theorem exponent?_eq_some_iff {text : List Char} {scale : Int} : exponent? text = some scale ↔ Scale text scale := by
  constructor
  · intro found
    cases text with
    | nil =>
      cases found
      exact .absent
    | cons letter rest =>
      obtain ⟨sign, whole, signed⟩ := takeSign_spec rest
      rw [exponent?] at found
      split at found
      · next known =>
        obtain ⟨⟨negative, digits⟩, read, value⟩ := Option.map_eq_some_iff.mp found
        obtain ⟨parts, number⟩ := integer?_spec read
        rw [parts] at whole signed
        rw [← value, whole]
        exact .written known signed number
      · cases found
  · intro scaled
    cases scaled with
    | absent => rfl
    | @written letter sign digits negative known signed number =>
      have unsigned : takeSign digits = (false, digits) := by simpa using takeSign_digits number []
      rw [exponent?, if_pos known, integer?_of_takeSign (signed.takeSign_append unsigned) number]
      rfl

theorem Scale.not_digit {text : List Char} {scale : Int} (scaled : Scale text scale) :
    ∀ c ∈ text.head?, isDigit c = false := by
  intro c first
  cases scaled with
  | absent => cases first
  | written known => cases first; obtain rfl | rfl := known <;> rfl

theorem Scale.no_point {text : List Char} {scale : Int} (scaled : Scale text scale) (rest : List Char) :
    text ≠ '.' :: rest := by
  rintro rfl
  cases scaled with
  | written known => simp at known

/-- A run of digits is taken whole. -/
theorem span_digits {digits rest : List Char} (digital : ∀ c ∈ digits, isDigit c = true)
    (ends : ∀ c ∈ rest.head?, isDigit c = false) :
    (digits ++ rest).takeWhile isDigit = digits ∧ (digits ++ rest).dropWhile isDigit = rest := by
  obtain rfl | some := eq_or_ne digits []
  · cases rest with
    | nil => simp
    | cons c rest => simp [ends c rfl]
  · exact takeWhile_isDigit_append ⟨some, digital⟩ ends

theorem mantissa?_written {whole point fraction exponent : List Char} {scale : Int}
    (digital : ∀ c ∈ whole, isDigit c = true) (digital' : ∀ c ∈ fraction, isDigit c = true)
    (some : whole ++ fraction ≠ []) (pointed : point = ['.'] ∨ point = [] ∧ fraction = [])
    (scaled : Scale exponent scale) :
    mantissa? (whole ++ (point ++ (fraction ++ exponent))) = .some (whole, fraction, exponent) := by
  obtain rfl | ⟨rfl, rfl⟩ := pointed
  · change mantissa? (whole ++ '.' :: (fraction ++ exponent)) = _
    have point : ∀ c ∈ ('.' :: (fraction ++ exponent)).head?, isDigit c = false := by
      intro c first
      cases first
      rfl
    obtain ⟨taken, left⟩ := span_digits digital point
    obtain ⟨taken', left'⟩ := span_digits digital' scaled.not_digit
    have filled : ¬(whole.isEmpty && fraction.isEmpty) = true := by
      simpa using some
    simp only [mantissa?, taken, left, taken', left', if_neg filled]
  · obtain ⟨taken, left⟩ := span_digits digital scaled.not_digit
    rw [List.append_nil] at some
    simp only [mantissa?, List.nil_append, taken, left]
    split
    · exact absurd rfl (scaled.no_point _)
    · simp [some]

theorem mantissa?_spec {text whole fraction rest : List Char} (found : mantissa? text = some (whole, fraction, rest)) :
    ∃ point, text = whole ++ (point ++ (fraction ++ rest)) ∧ (∀ c ∈ whole, isDigit c = true) ∧
      (∀ c ∈ fraction, isDigit c = true) ∧ whole ++ fraction ≠ [] ∧ (point = ['.'] ∨ point = [] ∧ fraction = []) := by
  have digital (text : List Char) : ∀ c ∈ text.takeWhile isDigit, isDigit c = true := fun c member =>
    List.all_eq_true.mp List.all_takeWhile c member
  have whole_text := (List.takeWhile_append_dropWhile (p := isDigit) (l := text)).symm
  rw [mantissa?] at found
  dsimp only at found
  split at found
  · next more left =>
    have rest_text := (List.takeWhile_append_dropWhile (p := isDigit) (l := more)).symm
    split at found
    · cases found
    · next filled =>
      cases found
      refine ⟨['.'], ?_, digital text, digital more, by simpa using filled, .inl rfl⟩
      rw [← rest_text, List.cons_append, List.nil_append, ← left]
      exact whole_text
  · split at found
    · cases found
    · next filled =>
      cases found
      exact ⟨[], whole_text, digital text, by simp, by simpa using filled, .inr ⟨rfl, rfl⟩⟩

/-- What is read as a decimal is what is written as one, with its sign and magnitude. -/
theorem written_iff {text : List Char} {negative : Bool} {q : ℚ} :
    Written text negative q ↔
      ∃ decimal, ofChars? text = some decimal ∧ decimal.negative = negative ∧ decimal.magnitude = q := by
  constructor
  · rintro ⟨signed, digital, digital', some, pointed, scaled⟩
    rename_i sign whole point fraction exponent scale
    have unsigned : takeSign (whole ++ (point ++ (fraction ++ exponent))) =
        (false, whole ++ (point ++ (fraction ++ exponent))) := by
      cases whole with
      | cons c more => exact takeSign_of_digit (digital c List.mem_cons_self) _
      | nil =>
        obtain rfl | ⟨_, rfl⟩ := pointed
        · rfl
        · exact absurd rfl some
    refine ⟨⟨negative, ofDigits (whole ++ fraction), scale - fraction.length⟩, ?_, rfl, rfl⟩
    simp [ofChars?, signed.takeSign_append unsigned, mantissa?_written digital digital' some pointed scaled,
      exponent?_eq_some_iff.mpr scaled]
  · rintro ⟨decimal, found, rfl, rfl⟩
    obtain ⟨sign, whole_text, signed⟩ := takeSign_spec text
    simp only [ofChars?, Option.bind_eq_bind, Option.bind_eq_some_iff, Prod.exists] at found
    obtain ⟨whole, fraction, rest, mantissa, scale, exponent, value⟩ := found
    obtain ⟨point, unsigned, digital, digital', some, pointed⟩ := mantissa?_spec mantissa
    have written := Written.intro signed digital digital' some pointed (exponent?_eq_some_iff.mp exponent)
    rw [← unsigned, ← whole_text] at written
    cases value
    exact written

/-! Decimals in double precision -/

open Format

theorem magnitude_nonneg (decimal : Decimal) : 0 ≤ decimal.magnitude := by
  rw [magnitude, power_eq_zpow]
  positivity

theorem power_two_le_power_ten (n : Nat) : power 2 (3 * n : Nat) ≤ power 10 n := by
  rw [power_natCast, power_natCast, Nat.pow_mul]
  exact_mod_cast Nat.pow_le_pow_left (by decide : 2 ^ 3 ≤ 10) n

/-- What is not computed would have become zero or infinite. -/
theorem toNumber_double_eq (decimal : Decimal) :
    decimal.toNumber .double = double.fit decimal.negative decimal.magnitude := by
  rw [toNumber]
  obtain zero | positive := decimal.magnitude_nonneg.eq_or_lt
  · have none : decimal.coefficient = 0 := by
      simpa [magnitude, (power_pos (by norm_num : 2 ≤ 10) decimal.exponent).ne'] using zero.symm
    rw [if_pos (by simp [none]), fit, ← zero, Format.round_zero, if_neg (not_le.mpr (power_two_pos _))]
  obtain ⟨filled, lower, upper⟩ := leading_spec positive
  split
  · next skipped =>
    -- less than half of the least double
    have low : (wholeLog 10 decimal.coefficient : Int) + decimal.exponent < -horizon := by
      simpa [filled] using skipped
    have below : decimal.magnitude < power 2 (-1075) := by
      have least : power 10 (-horizon) ≤ power 2 (-1200) := by
        have most := power_two_le_power_ten 400
        rw [power_eq_zpow, power_eq_zpow] at most ⊢
        rw [horizon, zpow_neg, zpow_neg]
        exact inv_anti₀ (by positivity) most
      calc decimal.magnitude < power 10 ((wholeLog 10 decimal.coefficient : Int) + decimal.exponent + 1) := upper
        _ ≤ power 10 (-horizon) := power_le (by norm_num) (by omega)
        _ ≤ power 2 (-1200) := least
        _ ≤ power 2 (-1075) := power_two_le (by decide)
    have half : power 2 double.lowest / 2 = power 2 (-1075) := by
      have low' : double.lowest = -1075 + 1 := rfl
      rw [low', power_two_succ]
      ring
    have unit_eq : double.unit decimal.magnitude = double.lowest := by
      have log := floorLog_lt positive below
      have low : double.lowest = -1074 := rfl
      rw [double_unit]
      omega
    rw [fit, round_tiny positive.le (by rw [half]; exact below.le) unit_eq, if_neg (not_le.mpr (power_two_pos _))]
  · split
    · next high =>
      have reached : power 2 double.limit ≤ decimal.magnitude := by
        calc power 2 double.limit ≤ power 2 (3 * 400 : Nat) := power_two_le (by decide)
          _ ≤ power 10 horizon := power_two_le_power_ten 400
          _ ≤ power 10 ((wholeLog 10 decimal.coefficient : Int) + decimal.exponent) := power_le (by norm_num) high.le
          _ ≤ decimal.magnitude := lower
      have half : double.halfway ≤ decimal.magnitude := by
        have last := power_two_pos (double.limit - double.precision)
        rw [halfway_eq]
        linarith
      rw [fit, if_pos ((limit_le_round_iff double_proper (by decide) positive.le).mpr half)]
    · rfl

end Decimal

namespace Format

variable {q : ℚ}

/-! Midpoints -/

/-- Two magnitudes of a format with none between them; the upper one may be the power of two at which infinity
begins. -/
structure Adjacent (format : Format) (low high : ℚ) : Prop where
  lower : format.Holds low
  upper : format.Holds high ∨ high = power 2 format.limit
  lt : low < high
  apart : ∀ other, format.Holds other → other ≤ low ∨ high ≤ other

/-- Halfway between two neighbours of a format. -/
def Midpoint (format : Format) (q : ℚ) : Prop := ∃ low high, format.Adjacent low high ∧ q = (low + high) / 2

/-- The next multiple of a unit is a number of single precision, too, or infinity begins there. -/
theorem holds_succ_or_limit {m : Nat} {exponent : Int} (short : m < 2 ^ 24) (least : -149 ≤ exponent)
    (last : exponent ≤ 104) :
    single.Holds ((m + 1) * power 2 exponent) ∨ ((m : ℚ) + 1) * power 2 exponent = power 2 single.limit := by
  obtain less | full : m + 1 < 2 ^ 24 ∨ m + 1 = 2 ^ 24 := by omega
  · exact .inl ⟨m + 1, exponent, less, least, last, by push_cast; ring⟩
  · have value : ((m : ℚ) + 1) * power 2 exponent = power 2 (24 + exponent) := by
      have full' : ((m : ℚ) + 1) = power 2 24 := by
        rw [← Nat.cast_add_one, full]
        exact (power_natCast 2 24).symm
      rw [full', power_two_add]
    rw [value]
    obtain less | equal : exponent < 104 ∨ exponent = 104 := by omega
    · have least' : -149 ≤ exponent + 1 := by omega
      have last' : exponent + 1 ≤ 104 := by omega
      refine .inl ⟨2 ^ 23, exponent + 1, by decide, least', last', ?_⟩
      rw [← power_two_natCast, ← power_two_add]
      congr 1
      push_cast
      ring
    · refine .inr ?_
      rw [equal]
      rfl

/-- From the leading power of two on, multiples of the unit that follow one another have no other number between
them. -/
theorem adjacent_multiples (positive : 0 < q) (below : q < power 2 single.limit) {m : Nat} (short : m < 2 ^ 24)
    (reached : power 2 (floorLog 2 q) < (m + 1) * power 2 (single.unit q)) :
    single.Adjacent (m * power 2 (single.unit q)) ((m + 1) * power 2 (single.unit q)) := by
  have scale := power_two_pos (single.unit q)
  have last : single.unit q ≤ 104 := unit_le_last single_proper positive below
  refine ⟨⟨m, single.unit q, short, unit_ge_lowest .., last, rfl⟩,
    holds_succ_or_limit short (single.unit_ge_lowest q) last, by linarith, fun other holds => ?_⟩
  obtain ⟨k, rfl⟩ | ⟨small, whole⟩ := holds.multiple_or_below single_proper q
  · obtain le | ge : k ≤ m ∨ m + 1 ≤ k := by omega
    · exact .inl (mul_le_mul_of_nonneg_right (by exact_mod_cast le) scale.le)
    · exact .inr (mul_le_mul_of_nonneg_right (by exact_mod_cast ge) scale.le)
  · -- the leading power of two is a multiple of the unit, too
    obtain ⟨k, _, value⟩ := power_two_multiple whole
    rw [value] at reached
    have le : k ≤ m := Nat.lt_succ_iff.mp (by exact_mod_cast lt_of_mul_lt_mul_right reached scale.le)
    refine .inl (small.le.trans ?_)
    rw [value]
    exact mul_le_mul_of_nonneg_right (by exact_mod_cast le) scale.le

/-- A double that is halfway between two multiples of a unit of single precision is a midpoint of that format. -/
theorem midpoint_of_round (positive : 0 < q) (below : q < power 2 single.limit)
    (normal : single.unit q ≤ floorLog 2 q + 1) {n : Int}
    (middle : double.round q = (n + 1 / 2) * power 2 (single.unit q)) : single.Midpoint (double.round q) := by
  have scale := power_two_pos (single.unit q)
  have fine := double_unit_add_le q
  have leading : power 2 (floorLog 2 q) ≤ double.round q := leading_le_round positive (by omega)
  have trailing : double.round q ≤ power 2 (floorLog 2 q + 1) :=
    round_le_power positive (lt_next_power positive) (by omega)
  have nonneg : 0 ≤ n := by
    have some := (power_two_pos _).trans_le leading
    rw [middle] at some
    have : (-1 : ℚ) < n := by linarith [pos_of_mul_pos_left some scale.le]
    have : (-1 : Int) < n := by exact_mod_cast this
    omega
  have short : n < 2 ^ 24 := by
    have wide : floorLog 2 q + 1 ≤ 24 + single.unit q := by
      rw [single_unit]
      omega
    have full : power 2 24 = ((2 ^ 24 : Int) : ℚ) := by norm_num [power_eq_zpow]
    have most := trailing.trans (power_two_le wide)
    rw [middle, power_two_add, full] at most
    have le : (n : ℚ) + 1 / 2 ≤ ((2 ^ 24 : Int) : ℚ) := le_of_mul_le_mul_right most scale
    have lt : (n : ℚ) < ((2 ^ 24 : Int) : ℚ) := (lt_add_of_pos_right _ (by norm_num)).trans_le le
    exact_mod_cast lt
  obtain ⟨m, rfl⟩ := Int.eq_ofNat_of_zero_le nonneg
  rw [Int.cast_natCast] at middle
  have reached : power 2 (floorLog 2 q) < (m + 1) * power 2 (single.unit q) := by
    rw [middle] at leading
    linarith
  refine ⟨_, _, adjacent_multiples positive below (by exact_mod_cast short) reached, ?_⟩
  rw [middle]
  ring

/-- Rounded twice, a magnitude is rounded as its double is. -/
theorem rounds_middle (nonneg : 0 ≤ q) {negative : Bool} {middle : ℚ}
    (rounds : double.Rounds negative q (.finite negative middle)) :
    single.Rounds negative middle ((double.fit negative q).roundTo .single) := by
  rw [← (rounds_iff double_proper (by decide) nonneg).mp rounds]
  cases rounds with
  | finite _ nearest => exact (rounds_single_iff nearest.holds.nonneg).mpr rfl

/-- Rounded twice, a magnitude is rounded correctly, unless its double is another number and a midpoint of single
precision. -/
theorem rounds_twice (nonneg : 0 ≤ q) {negative : Bool}
    (clear : ∀ middle, double.Rounds negative q (.finite negative middle) → single.Midpoint middle → middle = q) :
    single.Rounds negative q ((double.fit negative q).roundTo .single) := by
  have half_le : single.halfway ≤ power 2 single.limit := by
    rw [halfway_eq]
    linarith [power_two_pos (single.limit - single.precision)]
  by_cases within : q < double.halfway
  · have nearest := round_nearest double_proper (by decide) nonneg within
    have finite : (double.fit negative q).roundTo .single = single.fit negative (double.round q) := by
      rw [fit, if_neg fun reached => within.not_ge ((limit_le_round_iff double_proper (by decide) nonneg).mp reached)]
      rfl
    rw [finite]
    by_cases same : single.round (double.round q) = single.round q
    · refine (rounds_single_iff nonneg).mpr ?_
      rw [fit, fit, same]
    obtain zero | positive := nonneg.eq_or_lt
    · rw [← zero, Format.round_zero, Format.round_zero] at same
      exact absurd rfl same
    obtain ⟨n, middle, moved⟩ :
        ∃ n : Int, double.round q = (n + 1 / 2) * power 2 (single.unit q) ∧ double.round q ≠ q := by
      by_contra none
      exact same (single_round_double_round positive fun n middle => by_contra fun moved => none ⟨n, middle, moved⟩)
    have normal : -150 ≤ floorLog 2 q := not_lt.mp fun tiny => same (single_round_double_round_tiny positive tiny)
    have fine : single.unit q ≤ floorLog 2 q + 1 := by
      rw [single_unit]
      omega
    by_cases below : q < power 2 single.limit
    · exact absurd (clear _ (.finite within nearest) (midpoint_of_round positive below fine middle)) moved
    · -- too large for single precision with or without the first rounding
      have reached := not_lt.mp below
      have leading : power 2 single.limit ≤ double.round q :=
        (power_two_le (le_floorLog reached)).trans (leading_le_round positive (by linarith [double_unit_add_le q]))
      rw [fit, if_pos ((limit_le_round_iff single_proper (by decide) nearest.holds.nonneg).mpr (half_le.trans leading))]
      exact .overflow (half_le.trans reached)
  · have reached := not_lt.mp within
    have infinite : (double.fit negative q).roundTo .single = .infinite negative := by
      rw [fit, if_pos ((limit_le_round_iff double_proper (by decide) nonneg).mpr reached)]
      rfl
    have large : power 2 single.limit ≤ double.halfway := by
      have next : power 2 double.limit = 2 * power 2 1023 := power_two_succ 1023
      have last : power 2 (double.limit - double.precision) ≤ power 2 1023 := power_two_le (by decide)
      have less : power 2 single.limit ≤ power 2 1023 := power_two_le (by decide)
      rw [halfway_eq]
      linarith [power_two_pos 1023]
    rw [infinite]
    exact .overflow (half_le.trans (large.trans reached))

end Format

open Format

/-- A literal is accepted exactly if it is written as a decimal, and then it stands for the number of single precision
nearest to what is written, unless the nearest double is another number that is halfway between two neighbours in single
precision: then it stands for the even one of these. -/
theorem literalValue_float_rounds (lexeme : String) :
    ((∃ value, literalValue .float lexeme = .ok value) ↔ ∃ negative q, Decimal.Written lexeme.toList negative q) ∧
    ∀ negative q, Decimal.Written lexeme.toList negative q →
      ∃ number, literalValue .float lexeme = .ok (.float number) ∧
        ((∀ middle, double.Rounds negative q (.finite negative middle) → single.Midpoint middle → middle = q) →
          single.Rounds negative q number) ∧
        ∀ middle, double.Rounds negative q (.finite negative middle) → single.Midpoint middle →
          single.Rounds negative middle number := by
  have value {decimal : Decimal} (found : Decimal.ofChars? lexeme.toList = some decimal) :
      literalValue .float lexeme = .ok (.float ((decimal.toNumber .double).roundTo .single)) := by
    simp only [literalValue, found]
  constructor
  · constructor
    · rintro ⟨result, accepted⟩
      simp only [literalValue] at accepted
      split at accepted
      · next decimal found => exact ⟨_, _, Decimal.written_iff.mpr ⟨decimal, found, rfl, rfl⟩⟩
      · cases accepted
    · rintro ⟨negative, q, written⟩
      obtain ⟨decimal, found, _, _⟩ := Decimal.written_iff.mp written
      exact ⟨_, value found⟩
  · intro negative q written
    obtain ⟨decimal, found, rfl, rfl⟩ := Decimal.written_iff.mp written
    refine ⟨_, value found, ?_⟩
    rw [decimal.toNumber_double_eq]
    exact ⟨rounds_twice decimal.magnitude_nonneg, fun middle rounds _ => rounds_middle decimal.magnitude_nonneg rounds⟩

/-- A decimal a little above the midpoint of one and the next number, so that its double is that midpoint, stands for
one and not for the next number. -/
theorem literalValue_float_not_nearest :
    ∃ q, Decimal.Written "1.0000000596046447753906251".toList false q ∧
      literalValue .float "1.0000000596046447753906251" = .ok (.float (.finite false 1)) ∧
      ¬single.Rounds false q (.finite false 1) := by
  have found : Decimal.ofChars? "1.0000000596046447753906251".toList =
      some ⟨false, 10000000596046447753906251, -25⟩ := by decide +kernel
  have settled : ((⟨false, 10000000596046447753906251, -25⟩ : Decimal).toNumber .double).roundTo .single =
      .finite false 1 := by decide +kernel
  refine ⟨_, Decimal.written_iff.mpr ⟨_, found, rfl, rfl⟩, ?_, ?_⟩
  · simp only [literalValue, found, settled]
  · rw [rounds_single_iff (Decimal.magnitude_nonneg _)]
    decide +kernel

/-- A half is exact in both precisions. -/
theorem literalValue_float_half :
    ∃ number, literalValue .float "5e-1" = .ok (.float number) ∧ single.Rounds false (1 / 2) number := by
  have written : Decimal.Written "5e-1".toList false (1 / 2) :=
    Decimal.written_iff.mpr ⟨⟨false, 5, -1⟩, by decide +kernel, rfl, by decide +kernel⟩
  obtain ⟨number, value, nearest, _⟩ := (literalValue_float_rounds "5e-1").2 false (1 / 2) written
  refine ⟨number, value, nearest fun middle rounds _ => ?_⟩
  have same : double.fit false (1 / 2) = .finite false (1 / 2) := by decide +kernel
  rw [rounds_iff double_proper (by decide) (by norm_num), same] at rounds
  cases rounds
  rfl

end Corvid
