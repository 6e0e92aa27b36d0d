import Corvid.Expr
import Corvid.Number.Basic

/-!
Values. Lists and dictionaries are handles of containers that the store holds, so that copies of a value
share one container. A function is its name, parameters and body: it remembers no scope.
-/
namespace Corvid

inductive Value where
  | none
  | text (content : String)
  | int (n : Int)
  | float (number : Number)
  | bool (b : Bool)
  | list (handle : Nat)
  | dict (handle : Nat)
  /-- Whole numbers from one bound to the other, both included, in either direction. -/
  | range (first last : Int)
  | function (name : String) (parameters : List String) (body : Expr)

namespace Value

inductive Kind where
  | none | text | int | float | bool | list | dict | range | function
  deriving DecidableEq, Repr

def kind : Value → Kind
  | .none => .none
  | .text _ => .text
  | .int _ => .int
  | .float _ => .float
  | .bool _ => .bool
  | .list _ => .list
  | .dict _ => .dict
  | .range .. => .range
  | .function .. => .function

/-- The name of a kind in messages. -/
def Kind.name : Kind → String
  | .none => "None"
  | .text => "String"
  | .int => "Int"
  | .float => "Float"
  | .bool => "Bool"
  | .list => "List"
  | .dict => "Dict"
  | .range => "Range"
  | .function => "Function"

def isNone : Value → Bool
  | .none => true
  | _ => false

end Value

/-- What a dictionary may be indexed by. -/
inductive Key where
  | text (content : String)
  | int (n : Int)
  | float (number : Number)
  | bool (b : Bool)
  deriving DecidableEq

namespace Key

def ofValue? : Value → Option Key
  | .text content => some (.text content)
  | .int n => some (.int n)
  | .float number => some (.float number)
  | .bool b => some (.bool b)
  | _ => none

def toValue : Key → Value
  | .text content => .text content
  | .int n => .int n
  | .float number => .float number
  | .bool b => .bool b

/-- Whether two keys name one entry: equal values of one kind. The two zeros are one key, and a NaN is the
same key only as itself. -/
def same : Key → Key → Bool
  | .text a, .text b => a == b
  | .int a, .int b => a == b
  | .float (.nan a), .float (.nan b) => a == b
  | .float a, .float b => a.equals b
  | .bool a, .bool b => a == b
  | _, _ => false

end Key

/-- The numbers of a range: how many there are, and the one at an index. -/
def rangeSize (first last : Int) : Nat := (last - first).natAbs + 1

def rangeStep (first last : Int) : Int := if first ≤ last then 1 else -1

def rangeItem (first last : Int) (index : Nat) : Int := first + rangeStep first last * (index : Int)

end Corvid
