import Corvid.Number.Basic

/-!
Decimals as they are written: an optional sign, digits with an optional point, and an optional exponent.
-/
namespace Corvid

/-- The number `± coefficient · 10 ^ exponent`. -/
structure Decimal where
  negative : Bool
  coefficient : Nat
  exponent : Int
  deriving DecidableEq, Repr

namespace Decimal

def isDigit (c : Char) : Bool := '0' ≤ c && c ≤ '9'

/-- The whole number that a run of digits spells. -/
def ofDigits (digits : List Char) : Nat := digits.foldl (fun n c => 10 * n + (c.toNat - 48)) 0

/-- An optional sign at the front: whether it is a minus, and what follows. -/
def takeSign : List Char → Bool × List Char
  | '-' :: rest => (true, rest)
  | '+' :: rest => (false, rest)
  | rest => (false, rest)

/-- A signed run of digits and nothing else: the sign and the digits. -/
def integer? (text : List Char) : Option (Bool × List Char) :=
  let (negative, digits) := takeSign text
  if digits.isEmpty || !digits.all isDigit then none else some (negative, digits)

/-- The exponent that ends a decimal; none if the text is no exponent. -/
def exponent? : List Char → Option Int
  | [] => some 0
  | c :: rest =>
    if c = 'e' ∨ c = 'E' then
      (integer? rest).map fun (negative, digits) =>
        let size : Int := ofDigits digits
        if negative then -size else size
    else none

/-- The digits before and after the point, and the rest of the text. There is a digit on at least one side. -/
def mantissa? (text : List Char) : Option (List Char × List Char × List Char) :=
  let whole := text.takeWhile isDigit
  match text.dropWhile isDigit with
  | '.' :: rest =>
    let fraction := rest.takeWhile isDigit
    if whole.isEmpty && fraction.isEmpty then none else some (whole, fraction, rest.dropWhile isDigit)
  | rest => if whole.isEmpty then none else some (whole, [], rest)

/-- Reads a whole text as a decimal. -/
def ofChars? (text : List Char) : Option Decimal := do
  let (negative, unsigned) := takeSign text
  let (whole, fraction, rest) ← mantissa? unsigned
  let exponent ← exponent? rest
  return ⟨negative, ofDigits (whole ++ fraction), exponent - (fraction.length : Int)⟩

/-- The exact magnitude. -/
def magnitude (decimal : Decimal) : Rat := (decimal.coefficient : Rat) * power 10 decimal.exponent

/-- Beyond this power of ten every format in use has reached infinity, and below its inverse zero. -/
def horizon : Int := 400

/-- The nearest number of a format. Magnitudes beyond the horizon are not computed. -/
def toNumber (format : Format) (decimal : Decimal) : Number :=
  let leading := (wholeLog 10 decimal.coefficient : Int) + decimal.exponent
  if decimal.coefficient = 0 || leading < -horizon then .finite decimal.negative 0
  else if horizon < leading then .infinite decimal.negative
  else format.fit decimal.negative decimal.magnitude

end Decimal

end Corvid
