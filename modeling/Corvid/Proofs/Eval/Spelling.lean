import Corvid.Proofs.Eval.Literal
import Corvid.Proofs.Eval.Operators
import Corvid.Proofs.Printing.Expressible

/-!
The values of literals as texts spell them. Literals check their own form once more, apart from how tokens are read;
here every token passes that check. Only whole numbers can stand for no value, if they are out of range or too long.
-/
namespace Corvid

/-- Whole numbers as texts spell them: their digits and their value. -/
inductive Numeral : String → List Char → Int → Prop where
  | plain {digits : List Char} (number : Token.Digits digits) :
      Numeral (String.ofList digits) digits (Decimal.ofDigits digits)
  | minus {digits : List Char} (number : Token.Digits digits) :
      Numeral (String.ofList ('-' :: digits)) digits (-(Decimal.ofDigits digits : Int))

namespace Decimal

theorem takeSign_minus (text : List Char) : takeSign ('-' :: text) = (true, text) := rfl

theorem takeSign_plus (text : List Char) : takeSign ('+' :: text) = (false, text) := rfl

/-- What starts with a digit has no sign. -/
theorem takeSign_of_digit {c : Char} (digit : isDigit c = true) (text : List Char) :
    takeSign (c :: text) = (false, c :: text) := by
  unfold takeSign
  split
  · next same => cases same; contradiction
  · next same => cases same; contradiction
  · rfl

theorem takeSign_digits {digits : List Char} (number : Token.Digits digits) (text : List Char) :
    takeSign (digits ++ text) = (false, digits ++ text) := by
  obtain ⟨first, more, rfl⟩ := List.exists_cons_of_ne_nil number.1
  exact takeSign_of_digit (number.2 first List.mem_cons_self) (more ++ text)

theorem integer?_of_takeSign {text digits : List Char} {negative : Bool} (sign : takeSign text = (negative, digits))
    (number : Token.Digits digits) : integer? text = some (negative, digits) := by
  have digital : digits.all isDigit = true := List.all_eq_true.mpr number.2
  simp [integer?, sign, digital, number.1]

theorem exponent?_isSome {exponent : List Char} (scaled : Token.Exponent exponent) :
    ∃ scale, exponent? exponent = some scale := by
  cases scaled with
  | absent => exact ⟨0, rfl⟩
  | @plain letter digits known number =>
    have unsigned : takeSign digits = (false, digits) := by simpa using takeSign_digits number []
    rw [exponent?, if_pos known, integer?_of_takeSign unsigned number]
    exact ⟨_, rfl⟩
  | @signed letter sign digits known known' number =>
    rw [exponent?, if_pos known]
    obtain rfl | rfl := known'
    · rw [integer?_of_takeSign (takeSign_plus digits) number]
      exact ⟨_, rfl⟩
    · rw [integer?_of_takeSign (takeSign_minus digits) number]
      exact ⟨_, rfl⟩

theorem takeWhile_isDigit_append {digits rest : List Char} (number : Token.Digits digits)
    (ends : ∀ c ∈ rest.head?, isDigit c = false) :
    (digits ++ rest).takeWhile isDigit = digits ∧ (digits ++ rest).dropWhile isDigit = rest := by
  have digital : ∀ c ∈ digits, isDigit c = true := number.2
  rw [List.takeWhile_append_of_pos digital, List.dropWhile_append_of_pos digital]
  cases rest with
  | nil => simp
  | cons c rest => simp [ends c rfl]

theorem mantissa?_float {whole fraction exponent : List Char} (number : Token.Digits whole)
    (broken : Token.Digits fraction) (scaled : Token.Exponent exponent) :
    mantissa? (whole ++ '.' :: (fraction ++ exponent)) = some (whole, fraction, exponent) := by
  have point : ∀ c ∈ ('.' :: (fraction ++ exponent)).head?, isDigit c = false := by
    intro c first
    cases first
    rfl
  have letter : ∀ c ∈ exponent.head?, isDigit c = false := by
    intro c first
    cases scaled with
    | absent => cases first
    | plain known => cases first; obtain rfl | rfl := known <;> rfl
    | signed known => cases first; obtain rfl | rfl := known <;> rfl
  obtain ⟨taken, left⟩ := takeWhile_isDigit_append number point
  obtain ⟨taken', left'⟩ := takeWhile_isDigit_append broken letter
  simp only [mantissa?, taken, left, taken', left']
  simp [number.1]

theorem ofChars?_isSome {text unsigned : List Char} {negative : Bool} (sign : takeSign text = (negative, unsigned))
    (float : Token.Lexeme .float unsigned) : ∃ decimal, ofChars? text = some decimal := by
  cases float with
  | @float whole fraction exponent number broken scaled =>
    obtain ⟨scale, found⟩ := exponent?_isSome scaled
    simp [ofChars?, sign, mantissa?_float number broken scaled, found]

end Decimal

theorem Token.Quoted.getLast? {inside : List Char} (quoted : Quoted inside) : inside.getLast? = some '"' := by
  induction quoted with
  | close => rfl
  | plain _ _ ih => simp [List.getLast?_cons, ih]
  | escape _ _ ih => simp [List.getLast?_cons, ih]

/-- The value of a whole number, in the order in which its two limits are checked. -/
theorem Numeral.literalValue {lexeme : String} {digits : List Char} {n : Int} (numeral : Numeral lexeme digits n) :
    literalValue .int lexeme =
      if digitLimit < digits.length then .error .tooLong
      else if Integer.fits n then .ok (.int n) else .error (.fault (.malformed .int lexeme) .absent) := by
  cases numeral with
  | plain number =>
    have unsigned : Decimal.takeSign digits = (false, digits) := by simpa using Decimal.takeSign_digits number []
    simp [Corvid.literalValue, Decimal.integer?_of_takeSign unsigned number]
  | minus number =>
    simp [Corvid.literalValue, Decimal.integer?_of_takeSign (Decimal.takeSign_minus digits) number]

theorem Signed.numeral {lexeme : String} (signed : Signed .int lexeme) : ∃ digits n, Numeral lexeme digits n := by
  obtain ⟨number, spelled, form⟩ := signed
  have digits : Token.Digits number.toList := by
    generalize number.toList = text at spelled
    cases spelled with
    | int number => exact number
  obtain rfl | rfl := form
  · have plain := Numeral.plain digits
    rw [String.ofList_toList] at plain
    exact ⟨_, _, plain⟩
  · have minus := Numeral.minus digits
    have same : String.ofList ('-' :: number.toList) = "-" ++ number := by
      apply String.toList_inj.mp
      simp
    rw [same] at minus
    exact ⟨_, _, minus⟩

theorem literalValue_string {lexeme : String} (spelled : LiteralKind.string.Spelled lexeme) :
    ∃ value, literalValue .string lexeme = .ok value := by
  have body : ∃ body, stringBody? lexeme.toList = some body := by
    change Token.Lexeme .string lexeme.toList at spelled
    generalize lexeme.toList = text at spelled
    cases spelled with
    | @string inside quoted =>
      refine ⟨inside.dropLast, ?_⟩
      simp only [stringBody?, quoted.getLast?]
  obtain ⟨body, found⟩ := body
  simp [literalValue, found]

theorem literalValue_float {lexeme : String} (spelled : LiteralKind.float.Spelled lexeme) :
    ∃ value, literalValue .float lexeme = .ok value := by
  obtain ⟨number, float, form⟩ := spelled
  have decimal : ∃ decimal, Decimal.ofChars? lexeme.toList = some decimal := by
    obtain rfl | rfl := form
    · have unsigned : Decimal.takeSign lexeme.toList = (false, lexeme.toList) := by
        generalize lexeme.toList = text at float
        cases float with
        | float whole => exact Decimal.takeSign_digits whole _
      exact Decimal.ofChars?_isSome unsigned float
    · have signed : ("-" ++ number).toList = '-' :: number.toList := by simp
      rw [signed]
      exact Decimal.ofChars?_isSome (Decimal.takeSign_minus _) float
  obtain ⟨decimal, found⟩ := decimal
  simp [literalValue, found]

/-- A literal that a text can have and that stands for no value is a whole number, too long or out of range. -/
theorem LiteralKind.Spelled.stops {kind : LiteralKind} {lexeme : String} {halt : Halt} (spelled : kind.Spelled lexeme)
    (stops : literalValue kind lexeme = .error halt) :
    kind = .int ∧ ∃ digits n, Numeral lexeme digits n ∧ (halt = .tooLong ∧ digitLimit < digits.length ∨
      halt = .fault (.malformed .int lexeme) .absent ∧ ¬(Integer.least ≤ n ∧ n ≤ Integer.greatest)) := by
  cases kind with
  | string =>
    obtain ⟨value, gives⟩ := literalValue_string spelled
    rw [gives] at stops
    cases stops
  | float =>
    obtain ⟨value, gives⟩ := literalValue_float spelled
    rw [gives] at stops
    cases stops
  | bool => cases stops
  | int =>
    obtain ⟨digits, n, numeral⟩ := Signed.numeral spelled
    refine ⟨rfl, digits, n, numeral, ?_⟩
    rw [numeral.literalValue] at stops
    split at stops
    · next long =>
      cases stops
      exact .inl ⟨rfl, long⟩
    · split at stops
      · cases stops
      · next outside =>
        cases stops
        rw [Integer.fits_iff] at outside
        exact .inr ⟨rfl, outside⟩

end Corvid
