import Corvid.Proofs.Eval.Spelling
import Corvid.Proofs.Number.Nearest

/-!
The texts of numbers. Whichever notation is chosen, the text of a positive magnitude is a decimal that stands for the
shortest form exactly: zeros at the end are left out, others are put in around the point, and the exponent makes up for
them. So it is read as the number that it was written for.
-/
namespace Corvid

/-! Digits -/

namespace Decimal

theorem ofDigits_append (front rest : List Char) :
    ofDigits (front ++ rest) = ofDigits front * 10 ^ rest.length + ofDigits rest := by
  change Nat.ofDigitChars 10 (front ++ rest) 0 = _
  rw [Nat.ofDigitChars_append, Nat.ofDigitChars_eq_ofDigitChars_zero, Nat.mul_comm]
  rfl

theorem isDigit_zeros (n : Nat) : ∀ c ∈ List.replicate n '0', isDigit c = true := by
  intro c member
  rw [List.eq_of_mem_replicate member]
  rfl

theorem digits_zero : Token.Digits ['0'] := ⟨List.cons_ne_nil _ _, isDigit_zeros 1⟩

theorem ofDigits_zeros (n : Nat) : ofDigits (List.replicate n '0') = 0 := by
  change Nat.ofDigitChars 10 (List.replicate n '0') 0 = 0
  rw [Nat.ofDigitChars_replicate_zero, Nat.mul_zero]

/-- Zeros at the end are a power of ten. -/
theorem ofDigits_append_zeros (digits : List Char) (n : Nat) (scale : Int) :
    (ofDigits (digits ++ List.replicate n '0') : ℚ) * power 10 (scale - n) = ofDigits digits * power 10 scale := by
  rw [ofDigits_append, ofDigits_zeros, List.length_replicate, Nat.add_zero, Nat.cast_mul, ← power_natCast, mul_assoc,
    ← power_add (by norm_num)]
  congr 2
  omega

theorem ofDigits_toDigits (n : Nat) : ofDigits (Nat.toDigits 10 n) = n := Nat.ofDigitChars_ten_toDigits

theorem digits_toDigits (n : Nat) : Token.Digits (Nat.toDigits 10 n) :=
  ⟨Nat.toDigits_ne_nil, fun _ member => Nat.isDigit_of_mem_toDigits (by decide) (by decide) member⟩

end Decimal

namespace Scientific

open Decimal

/-- What is left out at the end of a text is zeros. -/
theorem exists_zeros (text : List Char) :
    ∃ n, text = (text.reverse.dropWhile (· == '0')).reverse ++ List.replicate n '0' := by
  refine ⟨(text.reverse.takeWhile (· == '0')).length, ?_⟩
  have zeros : text.reverse.takeWhile (· == '0') = List.replicate (text.reverse.takeWhile (· == '0')).length '0' := by
    refine List.eq_replicate_iff.mpr ⟨rfl, fun c member => ?_⟩
    simpa using List.all_eq_true.mp List.all_takeWhile c member
  rw [← List.reverse_replicate, ← zeros, ← List.reverse_append, List.takeWhile_append_dropWhile, List.reverse_reverse]

variable {number : Scientific}

theorem Normal.length_coefficient (normal : number.Normal) :
    (Nat.toDigits 10 number.coefficient).length = number.places + 1 := by
  obtain ⟨lower, upper⟩ := normal
  have most := (Nat.length_toDigits_le_iff (by decide : 1 < 10) (Nat.succ_pos _)).mpr upper
  have some : 0 < (Nat.toDigits 10 number.coefficient).length := Nat.length_toDigits_pos
  by_cases whole : number.places = 0
  · omega
  · have more : ¬(Nat.toDigits 10 number.coefficient).length ≤ number.places := by
      rw [Nat.length_toDigits_le_iff (by decide) (Nat.pos_of_ne_zero whole), Nat.not_lt]
      exact lower
    omega

/-- The digits of a form stand for it, with the point behind the first of them. -/
theorem Normal.digits_spec (normal : number.Normal) :
    Token.Digits number.digits ∧
      number.magnitude = ofDigits number.digits * power 10 (number.exponent + 1 - number.digits.length) := by
  obtain ⟨n, text⟩ := exists_zeros (Nat.toDigits 10 number.coefficient)
  have same : ((Nat.toDigits 10 number.coefficient).reverse.dropWhile (· == '0')).reverse = number.digits := by
    rw [digits, Nat.toString_eq_repr, Nat.toList_repr]
  rw [same] at text
  have length : number.digits.length + n = number.places + 1 := by
    have whole := normal.length_coefficient
    rwa [text, List.length_append, List.length_replicate] at whole
  refine ⟨⟨?_, fun c member => ?_⟩, ?_⟩
  · intro none
    have zero := ofDigits_toDigits number.coefficient
    rw [text, none, List.nil_append, ofDigits_zeros] at zero
    have positive : 0 < 10 ^ number.places := by positivity
    have lower := normal.1
    omega
  · refine (digits_toDigits number.coefficient).2 c ?_
    rw [text]
    exact List.mem_append_left _ member
  · rw [magnitude, ← ofDigits_append_zeros _ n, ← text, ofDigits_toDigits]
    congr 2
    omega

end Scientific

/-! Notations -/

namespace Decimal

/-- A text that is a number with a point, with the magnitude that it stands for. -/
def Spells (text : List Char) (q : ℚ) : Prop :=
  ∃ whole fraction exponent scale, text = whole ++ '.' :: (fraction ++ exponent) ∧ Token.Digits whole ∧
    Token.Digits fraction ∧ Token.Exponent exponent ∧ exponent? exponent = some scale ∧
    q = ofDigits (whole ++ fraction) * power 10 (scale - fraction.length)

namespace Spells

variable {text : List Char} {q : ℚ}

theorem lexeme (spells : Spells text q) : Token.Lexeme .float text := by
  obtain ⟨whole, fraction, exponent, scale, rfl, number, broken, scaled, _, _⟩ := spells
  exact .float number broken scaled

theorem ofChars? {signed : List Char} {negative : Bool} (spells : Spells text q)
    (sign : takeSign signed = (negative, text)) :
    ∃ decimal, ofChars? signed = some decimal ∧ decimal.negative = negative ∧ decimal.magnitude = q := by
  obtain ⟨whole, fraction, exponent, scale, rfl, number, broken, scaled, found, rfl⟩ := spells
  refine ⟨⟨negative, ofDigits (whole ++ fraction), scale - fraction.length⟩, ?_, rfl, rfl⟩
  simp [Decimal.ofChars?, sign, mantissa?_float number broken scaled, found]

end Spells

/-- A written exponent is read as it was meant. -/
theorem exponent?_toString (exponent : Int) : Token.Exponent ('E' :: (toString exponent).toList) ∧
    exponent? ('E' :: (toString exponent).toList) = some exponent := by
  cases exponent with
  | ofNat n =>
    have text : (toString (Int.ofNat n)).toList = Nat.toDigits 10 n := Nat.toList_repr
    have number := digits_toDigits n
    have unsigned : takeSign (Nat.toDigits 10 n) = (false, Nat.toDigits 10 n) := by
      simpa using takeSign_digits number []
    rw [text]
    refine ⟨.plain (.inr rfl) number, ?_⟩
    simp [exponent?, integer?_of_takeSign unsigned number, ofDigits_toDigits]
  | negSucc n =>
    have text : (toString (Int.negSucc n)).toList = '-' :: Nat.toDigits 10 (n + 1) := by
      change ("-" ++ (n + 1).repr).toList = _
      rw [String.toList_append, Nat.toList_repr]
      rfl
    have number := digits_toDigits (n + 1)
    rw [text]
    refine ⟨.signed (.inr rfl) (.inr rfl) number, ?_⟩
    simp [exponent?, integer?_of_takeSign (takeSign_minus _) number, ofDigits_toDigits, Int.negSucc_eq]

end Decimal

namespace Scientific

open Decimal

theorem spells_fractionText {whole digits exponent : List Char} {scale : Int} (number : Token.Digits whole)
    (digital : ∀ c ∈ digits, isDigit c = true) (scaled : Token.Exponent exponent)
    (found : exponent? exponent = some scale) :
    Spells (whole ++ fractionText digits ++ exponent)
      (ofDigits (whole ++ digits) * power 10 (scale - digits.length)) := by
  cases digits with
  | nil =>
    refine ⟨whole, ['0'], exponent, scale, by simp [fractionText], number, digits_zero, scaled, found, ?_⟩
    simpa using (ofDigits_append_zeros whole 1 scale).symm
  | cons first more =>
    have broken : Token.Digits (first :: more) := ⟨List.cons_ne_nil _ _, digital⟩
    exact ⟨whole, first :: more, exponent, scale, by simp [fractionText], number, broken, scaled, found, rfl⟩

variable {digits : List Char}

theorem withExponent_spells (number : Token.Digits digits) (exponent : Int) :
    Spells (withExponent digits exponent) (ofDigits digits * power 10 (exponent + 1 - digits.length)) := by
  obtain ⟨first, more, rfl⟩ := List.exists_cons_of_ne_nil number.1
  obtain ⟨scaled, found⟩ := exponent?_toString exponent
  have lead : Token.Digits [first] := ⟨by simp, List.forall_mem_singleton.mpr (number.2 first List.mem_cons_self)⟩
  have spells := spells_fractionText lead (fun c member => number.2 c (List.mem_cons_of_mem first member)) scaled found
  have same : exponent + 1 - ((first :: more).length : Int) = exponent - more.length := by
    rw [List.length_cons]
    omega
  rw [same]
  exact spells

/-- A point behind some number of digits, with zeros put in before it or with digits left for after it. -/
theorem ofDigits_around (digits : List Char) (size : Nat) :
    (ofDigits (digits.take size ++ List.replicate (size - digits.length) '0' ++ digits.drop size) : ℚ) *
      power 10 (0 - (digits.drop size).length) = ofDigits digits * power 10 (size - digits.length) := by
  obtain short | long := Nat.le_total digits.length size
  · have value := ofDigits_append_zeros digits (size - digits.length) (size - digits.length : Nat)
    rw [sub_self, Nat.cast_sub short] at value
    rw [List.take_of_length_le short, List.drop_of_length_le short, List.append_nil, ← value]
    rfl
  · rw [Nat.sub_eq_zero_of_le long, List.replicate_zero, List.append_nil, List.take_append_drop, List.length_drop]
    congr 2
    omega

theorem positional_spells (number : Token.Digits digits) (exponent : Int) :
    Spells (positional digits exponent) (ofDigits digits * power 10 (exponent + 1 - digits.length)) := by
  rw [positional]
  split
  · next small =>
    -- the point comes first, then zeros up to the first digit
    have spells := spells_fractionText digits_zero
      (List.forall_mem_append.mpr ⟨isDigit_zeros (-exponent - 1).toNat, number.2⟩) .absent rfl
    have value : ofDigits (['0'] ++ (List.replicate (-exponent - 1).toNat '0' ++ digits)) = ofDigits digits := by
      rw [← List.append_assoc, ofDigits_append, ofDigits_append, ofDigits_zeros]
      simp [ofDigits]
    have place : exponent + 1 - digits.length =
        0 - ((List.replicate (-exponent - 1).toNat '0' ++ digits).length : Int) := by
      rw [List.length_append, List.length_replicate]
      omega
    rw [value, List.append_nil] at spells
    rw [place]
    exact spells
  · next large =>
    dsimp only
    have some : digits.take (exponent.toNat + 1) ≠ [] := by
      simp [number.1]
    have whole : Token.Digits (digits.take (exponent.toNat + 1) ++
        List.replicate (exponent.toNat + 1 - digits.length) '0') :=
      ⟨List.append_ne_nil_of_left_ne_nil some _, List.forall_mem_append.mpr
        ⟨fun c member => number.2 c (List.mem_of_mem_take member), isDigit_zeros _⟩⟩
    have rest : ∀ c ∈ digits.drop (exponent.toNat + 1), isDigit c = true :=
      fun c member => number.2 c (List.mem_of_mem_drop member)
    have spells := spells_fractionText whole rest .absent rfl
    have place : exponent + 1 - digits.length = (exponent.toNat + 1 : Nat) - (digits.length : Int) := by
      omega
    rw [ofDigits_around, List.append_nil, ← place] at spells
    exact spells

/-- The text of a positive magnitude stands for its shortest form. -/
theorem magnitudeText_spells {q : ℚ} (holds : Format.single.Holds q) (positive : 0 < q) :
    Spells (magnitudeText q) (shortest q).magnitude := by
  obtain ⟨places, form, _⟩ := shortest_spec holds positive
  obtain ⟨number, value⟩ := (ofRat_normal places positive).digits_spec
  rw [magnitudeText, form, value]
  split
  · exact positional_spells number _
  · exact withExponent_spells number _

end Scientific

/-- The text of a finite number is a sign and a decimal that is read as the number. -/
theorem Number.text_spec {magnitude : ℚ} (holds : Format.single.Holds magnitude) (negative : Bool) :
    ∃ unsigned written, (Number.finite negative magnitude).text =
        String.ofList (if negative then '-' :: unsigned else unsigned) ∧
      Decimal.Spells unsigned written ∧ ∀ decimal : Decimal, decimal.magnitude = written →
        (decimal.toNumber .double).roundTo .single = .finite decimal.negative magnitude := by
  by_cases zero : magnitude = 0
  · subst zero
    refine ⟨['0', '.', '0'], 0, rfl, ?_, fun decimal same => Decimal.settle_zero same⟩
    have value : Decimal.ofDigits (['0'] ++ ['0']) = 0 := Decimal.ofDigits_zeros 2
    refine ⟨['0'], ['0'], [], 0, rfl, Decimal.digits_zero, Decimal.digits_zero, .absent, rfl, ?_⟩
    rw [value, Nat.cast_zero, zero_mul]
  · have positive := holds.nonneg.lt_of_ne' zero
    have spells := Scientific.magnitudeText_spells holds positive
    obtain ⟨places, form, reads⟩ := Scientific.shortest_spec holds positive
    rw [form] at spells
    refine ⟨magnitudeText magnitude, _, ?_, spells, fun decimal same => ?_⟩
    · simp only [text, if_neg zero]
    · rw [← same] at reads
      have between := Scientific.ofRat_between places positive
      rw [← same] at between
      exact Decimal.settle_of_reads holds positive between reads

end Corvid
