import Corvid.Number.Basic

/-!
The text of a number: the fewest significant digits, nine at most, that read back as the same single-precision
number. Magnitudes from a thousandth to below ten million are written in positional notation, all others
with a power of ten.
-/
namespace Corvid

/-- The number `coefficient · 10 ^ (exponent - places)`, with one digit before the point. -/
structure Scientific where
  coefficient : Nat
  exponent : Int
  places : Nat
  deriving DecidableEq, Repr

namespace Scientific

/-- A positive magnitude rounded to a number of places after its first digit. Rounding up to the next power
of ten moves the point. -/
def ofRat (places : Nat) (q : Rat) : Scientific :=
  let exponent := floorLog 10 q
  let coefficient := (roundEven (q / power 10 (exponent - (places : Int)))).toNat
  if coefficient = Nat.pow 10 (places + 1) then ⟨Nat.pow 10 places, exponent + 1, places⟩
  else ⟨coefficient, exponent, places⟩

def magnitude (number : Scientific) : Rat :=
  (number.coefficient : Rat) * power 10 (number.exponent - (number.places : Int))

/-- Whether the text of the number, read as a double and rounded to single, is the magnitude `q`. A double
above the largest single does not count. -/
def readsBack (q : Rat) (number : Scientific) : Bool :=
  let read := Format.double.round number.magnitude
  decide (read ≤ Format.single.largest) && decide (Format.single.round read = q)

/-- The most places ever needed. -/
def mostPlaces : Nat := 8

/-- The shortest form that reads back; with all places if none does. -/
def shortest (q : Rat) : Scientific :=
  let candidates := (List.range (mostPlaces + 1)).map (ofRat · q)
  (candidates.find? (readsBack q)).getD (ofRat mostPlaces q)

/-- The significant digits, without zeros at the end. -/
def digits (number : Scientific) : List Char :=
  ((toString number.coefficient).toList.reverse.dropWhile (· == '0')).reverse

/-- Digits after a point, of which there is at least one. -/
def fractionText (digits : List Char) : List Char := '.' :: if digits.isEmpty then ['0'] else digits

/-- Digits around the point. -/
def positional (digits : List Char) (exponent : Int) : List Char :=
  if exponent < 0 then
    '0' :: fractionText (List.replicate (-exponent - 1).toNat '0' ++ digits)
  else
    let size := exponent.toNat + 1
    digits.take size ++ List.replicate (size - digits.length) '0' ++ fractionText (digits.drop size)

/-- One digit before the point, and the power of ten. -/
def withExponent (digits : List Char) (exponent : Int) : List Char :=
  digits.take 1 ++ fractionText (digits.drop 1) ++ 'E' :: (toString exponent).toList

end Scientific

/-- Whether a magnitude is written without a power of ten. -/
def isPositional (q : Rat) : Bool := decide (1 / 1000 ≤ q) && decide (q < 10000000)

/-- The text of a positive magnitude. -/
def magnitudeText (q : Rat) : List Char :=
  let number := Scientific.shortest q
  if isPositional q then Scientific.positional number.digits number.exponent
  else Scientific.withExponent number.digits number.exponent

/-- The text of a number. -/
def Number.text : Number → String
  | .nan _ => "NaN"
  | .infinite negative => if negative then "-Infinity" else "Infinity"
  | .finite negative magnitude =>
    let unsigned := if magnitude = 0 then ['0', '.', '0'] else magnitudeText magnitude
    String.ofList (if negative then '-' :: unsigned else unsigned)

end Corvid
