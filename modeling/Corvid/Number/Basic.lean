import Corvid.Number.Rounding

/-!
Binary floating point. A number is an exact magnitude with a sign, an infinity, or no number at all; a format
says which magnitudes it holds. Rounding to a format goes to the nearest magnitude, ties to the even
significand, and a magnitude beyond the largest becomes an infinity.
-/
namespace Corvid

inductive Number where
  /-- The result of an operation that has none. Each such result is a thing of its own, told apart by its tag. -/
  | nan (tag : Nat)
  | infinite (negative : Bool)
  | finite (negative : Bool) (magnitude : Rat)
  deriving DecidableEq

structure Format where
  /-- Number of significant bits. -/
  precision : Nat
  /-- Width of the exponent field. -/
  exponentBits : Nat
  deriving DecidableEq, Repr

namespace Format

def single : Format := ⟨24, 8⟩

def double : Format := ⟨53, 11⟩

def bias (format : Format) : Nat := Nat.pow 2 (format.exponentBits - 1) - 1

/-- The exponent of the least positive magnitude. -/
def lowest (format : Format) : Int := 2 - (format.bias : Int) - (format.precision : Int)

/-- The exponent of the power of two at which infinity begins. -/
def limit (format : Format) : Int := (format.bias : Int) + 1

/-- The largest magnitude. -/
def largest (format : Format) : Rat :=
  power 2 format.limit - power 2 (format.limit - (format.precision : Int))

/-- The exponent of the last significant bit of a positive magnitude. -/
def unit (format : Format) (q : Rat) : Int :=
  max (floorLog 2 q - (format.precision : Int) + 1) format.lowest

/-- The magnitude of the format nearest to `q`, as if exponents had no upper end. -/
def round (format : Format) (q : Rat) : Rat :=
  if q = 0 then 0
  else
    let scale := power 2 (format.unit q)
    (roundEven (q / scale) : Rat) * scale

/-- A signed magnitude in the format. -/
def fit (format : Format) (negative : Bool) (magnitude : Rat) : Number :=
  let rounded := format.round magnitude
  if power 2 format.limit ≤ rounded then .infinite negative else .finite negative rounded

end Format

namespace Number

/-- The nearest number of a format. -/
def roundTo (format : Format) : Number → Number
  | .finite negative magnitude => format.fit negative magnitude
  | other => other

/-- A zero of either sign. -/
def isZero : Number → Bool
  | .finite _ magnitude => magnitude = 0
  | _ => false

/-- The rational number that a sign and a magnitude stand for. -/
def signed (negative : Bool) (magnitude : Rat) : Rat := if negative then -magnitude else magnitude

/-- A rational number as a number; a zero takes the given sign. -/
def ofRat (negativeZero : Bool) (q : Rat) : Number :=
  if q = 0 then .finite negativeZero 0
  else if q < 0 then .finite true (-q)
  else .finite false q

/-- Where a number stands in the order of all numbers; a NaN has no place in it. -/
def rank? : Number → Option (Int × Rat)
  | .nan _ => none
  | .infinite true => some (-1, 0)
  | .finite negative magnitude => some (0, signed negative magnitude)
  | .infinite false => some (1, 0)

/-- Equality by value: the two zeros are equal, a NaN equals nothing. -/
def equals (left right : Number) : Bool :=
  match left.rank?, right.rank? with
  | some a, some b => a == b
  | _, _ => false

/-- Strict order by value; false if either side is a NaN. -/
def below (left right : Number) : Bool :=
  match left.rank?, right.rank? with
  | some a, some b => a.1 < b.1 || (a.1 == b.1 && decide (a.2 < b.2))
  | _, _ => false

end Number

end Corvid
