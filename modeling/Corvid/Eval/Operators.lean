import Corvid.Fault
import Corvid.Integer
import Corvid.Number.Arithmetic

/-!
Operators on values. Kinds are checked before the operator itself.
-/
namespace Corvid

namespace Operator

def onIntegers (op : Operator) (left right : Int) : Except Fault Int :=
  match op with
  | .add => .ok (Integer.wrap (left + right))
  | .sub => .ok (Integer.wrap (left - right))
  | .mul => .ok (Integer.wrap (left * right))
  | .div => if right = 0 then .error .zeroDivision else .ok (Integer.quotient left right)
  | .and | .or => .error (.arithmeticOperator op)

def onNumbers (op : Operator) (fresh : Nat) (left right : Number) : Except Fault Number :=
  match op with
  | .add => .ok (left.add fresh right)
  | .sub => .ok (left.sub fresh right)
  | .mul => .ok (left.mul fresh right)
  | .div => if right.isZero then .error .zeroDivision else .ok (left.div fresh right)
  | .and | .or => .error (.arithmeticOperator op)

end Operator

/-- An operand of floating point arithmetic; whole numbers are rounded to single precision first. -/
def Value.number : Value → Except Fault Number
  | .int n => .ok (Number.settleSingle (.ofRat false n))
  | .float number => .ok number
  | other => .error (.arithmeticKind other.kind)

/-- A text a number of times. An empty text is the same however often it is repeated. -/
def repeated (content : String) (count : Int) : Except Fault Value :=
  if count < 0 then .error (.repetition count)
  else
    let times := if content.isEmpty then 0 else count.toNat
    .ok (.text (String.join (List.replicate times content)))

/-- Sums, differences, products and quotients: exact on whole numbers, and in single precision as soon as one
side is a float. A product of a string and a whole number repeats the string. -/
def arithmetic (op : Operator) (fresh : Nat) (left right : Value) : Except Fault Value :=
  match op, left, right with
  | .mul, .text content, .int count | .mul, .int count, .text content => repeated content count
  | _, .int a, .int b => (op.onIntegers a b).map .int
  | _, _, _ => do
    let a ← left.number
    let b ← right.number
    return .float (← op.onNumbers fresh a b)

/-- A comparison of two things that are equal or not. -/
def Comparator.onEquality (comparator : Comparator) (equal : Bool) : Except Fault Value :=
  match comparator with
  | .eq => .ok (.bool equal)
  | .ne => .ok (.bool !equal)
  | _ => .error (.comparator comparator)

/-- Equality of two values of one kind. -/
def equality (comparator : Comparator) (left right : Value) : Except Fault Value :=
  match left, right with
  | .text a, .text b => comparator.onEquality (a == b)
  | .bool a, .bool b => comparator.onEquality (a == b)
  | .int a, .int b => comparator.onEquality (a == b)
  | .float a, .float b => comparator.onEquality (a.equals b)
  | _, _ => .error (.equalityKinds left.kind right.kind)

/-- A comparison in an order given by "below" and "equal". -/
def Comparator.onOrder (comparator : Comparator) (below equal above : Bool) : Except Fault Value :=
  match comparator with
  | .lt => .ok (.bool below)
  | .le => .ok (.bool (below || equal))
  | .gt => .ok (.bool above)
  | .ge => .ok (.bool (above || equal))
  | _ => .error (.comparator comparator)

/-- Order of two whole numbers or two floats. -/
def comparison (comparator : Comparator) (left right : Value) : Except Fault Value :=
  match left, right with
  | .int a, .int b => comparator.onOrder (a < b) (a == b) (b < a)
  | .float a, .float b => comparator.onOrder (a.below b) (a.equals b) (b.below a)
  | _, _ => .error (.comparisonKinds left.kind right.kind)

/-- Conjunction and disjunction; both sides are known by now. -/
def logical (op : Operator) (left right : Value) : Except Fault Value :=
  match left, right with
  | .bool a, .bool b =>
    match op with
    | .and => .ok (.bool (a && b))
    | .or => .ok (.bool (a || b))
    | _ => .error (.logicalOperator op)
  | _, _ => .error (.logicalKinds left.kind right.kind)

/-- A range between two whole numbers. -/
def rangeBetween (low high : Value) : Except Fault Value :=
  match low, high with
  | .int first, .int last => .ok (.range first last)
  | _, _ => .error (.rangeKinds low.kind high.kind)

end Corvid
