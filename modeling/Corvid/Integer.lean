/-!
Whole numbers of 32 bits in two's complement: results are reduced to the range, and division goes toward zero.
-/
namespace Corvid.Integer

def least : Int := -2147483648

def greatest : Int := 2147483647

def fits (n : Int) : Bool := least ≤ n && n ≤ greatest

/-- The number in range that differs from `n` by a multiple of `2 ^ 32`. -/
def wrap (n : Int) : Int := (n - least) % 4294967296 + least

/-- The quotient toward zero; only the least number by minus one leaves the range, and is wrapped. -/
def quotient (n divisor : Int) : Int :=
  let size : Int := (n.natAbs / divisor.natAbs : Nat)
  wrap (if n < 0 ↔ divisor < 0 then size else -size)

end Corvid.Integer
