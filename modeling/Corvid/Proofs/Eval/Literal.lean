import Corvid.Eval.Literal

/-!
What a literal can stand for, whatever its text is.
-/
namespace Corvid

inductive LiteralOutcome (kind : LiteralKind) (lexeme : String) : Except Halt Value → Prop where
  | text (content : String) : LiteralOutcome kind lexeme (.ok (.text content))
  | int {n : Int} (fits : Integer.fits n = true) : LiteralOutcome kind lexeme (.ok (.int n))
  | float (decimal : Decimal) :
      LiteralOutcome kind lexeme (.ok (.float ((decimal.toNumber .double).roundTo .single)))
  | bool (b : Bool) : LiteralOutcome kind lexeme (.ok (.bool b))
  | tooLong : LiteralOutcome kind lexeme (.error .tooLong)
  | malformed : LiteralOutcome kind lexeme (.error (.fault (.malformed kind lexeme) .absent))

theorem literalValue_outcome (kind : LiteralKind) (lexeme : String) :
    LiteralOutcome kind lexeme (literalValue kind lexeme) := by
  cases kind with
  | string =>
    simp only [literalValue]
    split
    · exact .text _
    · exact .malformed
  | int =>
    simp only [literalValue]
    split
    · next negative digits _ =>
      generalize (if negative = true then -(Decimal.ofDigits digits : Int) else (Decimal.ofDigits digits : Int)) = n
      split
      · exact .tooLong
      · split
        · next fits => exact .int fits
        · exact .malformed
    · exact .malformed
  | float =>
    simp only [literalValue]
    split
    · exact .float _
    · exact .malformed
  | bool => exact .bool _

end Corvid
