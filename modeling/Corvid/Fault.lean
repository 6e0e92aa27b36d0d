import Corvid.Text.Quoted
import Corvid.Value

/-!
What can go wrong while a program runs, and how it is put into words.
-/
namespace Corvid

inductive Fault where
  | unbound (name : String)
  | notCallable (name : String)
  | arity (name : String) (expected received : Nat)
  | zeroDivision
  | badKey (found : Value.Kind)
  | indexKind (found : Value.Kind)
  | negativeIndex (index : Int)
  | outOfBounds (index : Int) (length : Nat)
  | malformed (kind : LiteralKind) (lexeme : String)
  | notSubscriptable (found : Value.Kind)
  | notIterable (found : Value.Kind)
  | conditionKind (found : Value.Kind)
  | negationKind (found : Value.Kind)
  | rangeKinds (low high : Value.Kind)
  | repetition (count : Int)
  | arithmeticKind (found : Value.Kind)
  | equalityKinds (left right : Value.Kind)
  | comparisonKinds (left right : Value.Kind)
  | logicalKinds (left right : Value.Kind)
  /-- A node of no known kind. This and the three that follow arise only in trees that no source text has. -/
  | unknownNode (kind : String)
  | arithmeticOperator (op : Operator)
  | logicalOperator (op : Operator)
  | comparator (comparator : Comparator)
  deriving DecidableEq, Repr

def LiteralKind.noun : LiteralKind → String
  | .string => "string"
  | .int => "integer"
  | .float => "float"
  | .bool => "boolean"

namespace Fault

def message : Fault → String
  | unbound name => name ++ " is not assigned."
  | notCallable name => name ++ " is not a function."
  | arity name expected received => name ++ s!" expects {expected} arguments but received {received}."
  | zeroDivision => "Cannot divide by zero."
  | badKey found => "Dictionary keys must be primitives or String, got " ++ found.name ++ "."
  | indexKind found => "List index must be an integer, got " ++ found.name ++ "."
  | negativeIndex index => s!"List index must be nonnegative, got {index}."
  | outOfBounds index length => s!"Index {index} out of bounds for length {length}."
  | malformed kind lexeme => "Malformed " ++ kind.noun ++ " literal " ++ Text.quoted lexeme ++ "."
  | notSubscriptable found => "Only collections can be subscripted, got " ++ found.name ++ "."
  | notIterable found =>
    "Can only iterate over lists, dictionaries, and integer ranges, got " ++ found.name ++ "."
  | conditionKind found => "Condition must evaluate to a boolean, got " ++ found.name ++ "."
  | negationKind found => "Can only negate boolean data, got " ++ found.name ++ "."
  | rangeKinds low high => "Can only iterate over integer ranges, got " ++ low.name ++ ".." ++ high.name ++ "."
  | repetition count => s!"String repetition count must be non-negative, got {count}."
  | arithmeticKind found => "Undefined arithmetic operation on " ++ found.name ++ "."
  | equalityKinds left right =>
    "Equality check can only be performed on objects of the same type, got " ++ left.name ++ " and " ++
      right.name ++ "."
  | comparisonKinds left right =>
    "Can only compare numbers of the same type, got " ++ left.name ++ " and " ++ right.name ++ "."
  | logicalKinds left right =>
    "Logical operators can only be applied to boolean data, got " ++ left.name ++ " and " ++ right.name ++ "."
  | unknownNode kind => "Unknown node: " ++ kind
  | arithmeticOperator op => "Invalid arithmetic operator " ++ op.symbol ++ "."
  | logicalOperator op => "Invalid logical operator " ++ op.symbol ++ "."
  | comparator found => "Invalid comparator " ++ found.symbol ++ "."

end Fault

/-- How an evaluation stops without a value. -/
inductive Halt where
  /-- A fault, with the place of the innermost node around it that knows its line. -/
  | fault (cause : Fault) (mark : Mark)
  /-- Calls, or containers that are being written out, are nested too deeply. -/
  | tooDeep
  /-- A whole number is written with more digits than are ever converted. -/
  | tooLong
  deriving DecidableEq, Repr

end Corvid
