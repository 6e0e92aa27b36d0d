import Corvid.Fault
import Corvid.Integer
import Corvid.Number.Decimal

/-!
The values of literals. A tree may hold any text as a lexeme, so each kind checks its own form.
-/
namespace Corvid

/-- Every backslash that stands before a quote is dropped, from left to right; other backslashes stay. -/
def unescapeQuotes : List Char → List Char
  | '\\' :: '"' :: rest => '"' :: unescapeQuotes rest
  | c :: rest => c :: unescapeQuotes rest
  | [] => []

/-- The text between the quotes of a string literal. -/
def stringBody? (lexeme : List Char) : Option (List Char) :=
  match lexeme with
  | '"' :: rest =>
    match rest.getLast? with
    | some '"' => some rest.dropLast
    | _ => none
  | _ => none

/-- The most digits that are converted to a whole number. -/
def digitLimit : Nat := 4300

/-- The value of a literal. -/
def literalValue (kind : LiteralKind) (lexeme : String) : Except Halt Value :=
  let malformed := Except.error (.fault (.malformed kind lexeme) .absent)
  match kind with
  | .string =>
    match stringBody? lexeme.toList with
    | some body => .ok (.text (String.ofList (unescapeQuotes body)))
    | none => malformed
  | .int =>
    match Decimal.integer? lexeme.toList with
    | some (negative, digits) =>
      if digitLimit < digits.length then .error .tooLong
      else
        let size : Int := Decimal.ofDigits digits
        let n := if negative then -size else size
        if Integer.fits n then .ok (.int n) else malformed
    | none => malformed
  | .float =>
    match Decimal.ofChars? lexeme.toList with
    | some decimal => .ok (.float ((decimal.toNumber .double).roundTo .single))
    | none => malformed
  | .bool => .ok (.bool (lexeme == "true"))

end Corvid
