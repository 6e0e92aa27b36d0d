import Corvid.Number.Basic

/-!
Interchange encodings: sign, exponent field and trailing significand, as one whole number.
-/
namespace Corvid

namespace Format

/-- Width of the trailing significand. -/
def trailingBits (format : Format) : Nat := format.precision - 1

/-- The exponent field of infinities and NaNs. -/
def topExponent (format : Format) : Nat := Nat.pow 2 format.exponentBits - 1

end Format

namespace Number

/-- The number that an encoding stands for; a NaN takes the given tag. -/
def ofBits (format : Format) (tag bits : Nat) : Number :=
  let field := Nat.pow 2 format.trailingBits
  let significand := bits % field
  let exponent := bits / field % Nat.pow 2 format.exponentBits
  let negative := bits / field / Nat.pow 2 format.exponentBits % 2 == 1
  if exponent = format.topExponent then
    if significand = 0 then .infinite negative else .nan tag
  else if exponent = 0 then .finite negative ((significand : Rat) * power 2 format.lowest)
  else
    .finite negative (((field + significand : Nat) : Rat) * power 2 (format.lowest + (exponent : Int) - 1))

/-- Exponent field and trailing significand, as one whole number, of a magnitude of the format. -/
def magnitudeBits (format : Format) (magnitude : Rat) : Nat :=
  if magnitude = 0 then 0
  else
    let unit := format.unit magnitude
    let significand := (magnitude / power 2 unit).floor.toNat
    (unit - format.lowest).toNat * Nat.pow 2 format.trailingBits + significand

/-- The encoding of a number of the format; none for a NaN, of which there are many. -/
def toBits? (format : Format) (number : Number) : Option Nat :=
  let field := Nat.pow 2 format.trailingBits
  let sign (negative : Bool) := if negative then Nat.pow 2 format.exponentBits * field else 0
  match number with
  | .nan _ => none
  | .infinite negative => some (sign negative + format.topExponent * field)
  | .finite negative magnitude => some (sign negative + magnitudeBits format magnitude)

end Number

end Corvid
