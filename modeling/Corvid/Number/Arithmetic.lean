import Corvid.Number.Basic

/-!
The four operations. The exact result is rounded to double precision and the double to single, as the
language prescribes. A result that does not exist is a new NaN, which takes the tag `fresh`.
-/
namespace Corvid.Number

def negated : Number → Number
  | .nan tag => .nan tag
  | .infinite negative => .infinite !negative
  | .finite negative magnitude => .finite (!negative) magnitude

/-- The exact sum. A sum of zero is positive unless both terms are negative. -/
def exactSum (fresh : Nat) : Number → Number → Number
  | .nan _, _ | _, .nan _ => .nan fresh
  | .infinite a, .infinite b => if a = b then .infinite a else .nan fresh
  | .infinite a, .finite .. => .infinite a
  | .finite .., .infinite b => .infinite b
  | .finite a p, .finite b q => ofRat (a && b) (signed a p + signed b q)

def exactProduct (fresh : Nat) : Number → Number → Number
  | .nan _, _ | _, .nan _ => .nan fresh
  | .infinite a, .infinite b => .infinite (a != b)
  | .infinite a, .finite b q => if q = 0 then .nan fresh else .infinite (a != b)
  | .finite a p, .infinite b => if p = 0 then .nan fresh else .infinite (a != b)
  | .finite a p, .finite b q => .finite (a != b) (p * q)

/-- The exact quotient by a divisor that is not zero. -/
def exactQuotient (fresh : Nat) : Number → Number → Number
  | .nan _, _ | _, .nan _ => .nan fresh
  | .infinite _, .infinite _ => .nan fresh
  | .infinite a, .finite b _ => .infinite (a != b)
  | .finite a _, .infinite b => .finite (a != b) 0
  | .finite a p, .finite b q => .finite (a != b) (p / q)

/-- Rounds an exact result: to double first, then to single. -/
def settleSingle (result : Number) : Number := (result.roundTo .double).roundTo .single

def add (fresh : Nat) (left right : Number) : Number := settleSingle (exactSum fresh left right)

def sub (fresh : Nat) (left right : Number) : Number := settleSingle (exactSum fresh left right.negated)

def mul (fresh : Nat) (left right : Number) : Number := settleSingle (exactProduct fresh left right)

def div (fresh : Nat) (left right : Number) : Number := settleSingle (exactQuotient fresh left right)

end Corvid.Number
