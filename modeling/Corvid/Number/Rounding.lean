/-!
Exact powers and logarithms of rational numbers, and rounding to the nearest whole number with a half going
to the even neighbour.
-/
namespace Corvid

/-- An integer power of a base. -/
def power (base : Nat) : Int → Rat
  | .ofNat n => ((Nat.pow base n : Nat) : Rat)
  | .negSucc n => 1 / ((Nat.pow base (n + 1) : Nat) : Rat)

/-- Counts how often `n` can be divided by the base, `fuel` times at most. -/
def divisions (base : Nat) : (fuel n : Nat) → Nat
  | 0, _ => 0
  | fuel + 1, n => if n < base then 0 else divisions base fuel (n / base) + 1

/-- The exponent of the largest power of the base that is not above `n`, for a base of at least 2. -/
def wholeLog (base n : Nat) : Nat := divisions base (n.log2 + 1) n

/-- The exponent of the largest power of the base that is not above a positive `q`. The quotient of the
leading powers of numerator and denominator is off by at most one. -/
def floorLog (base : Nat) (q : Rat) : Int :=
  let estimate : Int := (wholeLog base q.num.natAbs : Int) - (wholeLog base q.den : Int)
  if power base estimate ≤ q then estimate else estimate - 1

/-- The nearest whole number; a half goes to the even neighbour. -/
def roundEven (q : Rat) : Int :=
  let below := q.floor
  let rest := q - (below : Rat)
  if rest < 1 / 2 then below
  else if 1 / 2 < rest then below + 1
  else below + below % 2

end Corvid
