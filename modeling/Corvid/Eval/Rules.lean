import Corvid.Eval.Basic
import Corvid.Eval.Literal
import Corvid.Eval.Operators

/-!
One rule for each kind of node. A rule evaluates the parts of its node through `evaluate`, which is given to
it, and writes values out through `render`; so the depth of nesting is nothing that a rule has to know.
-/
namespace Corvid.Rule

/-- Evaluation of an expression in a scope. -/
abbrev Evaluator := Expr → Nat → Eval Value

/-- Expressions in order, and their values. -/
def evalAll (evaluate : Evaluator) (scope : Nat) : List Expr → Eval (List Value)
  | [] => pure []
  | expr :: rest => do
    let value ← evaluate expr scope
    let values ← evalAll evaluate scope rest
    return value :: values

/-- Expressions in order; the last value counts. -/
def evalBlock (evaluate : Evaluator) (scope : Nat) : List Expr → Value → Eval Value
  | [], last => pure last
  | expr :: rest, _ => do
    let value ← evaluate expr scope
    evalBlock evaluate scope rest value

def requireKey (value : Value) : Eval Key :=
  match Key.ofValue? value with
  | some key => pure key
  | none => Eval.fail (.badKey value.kind)

def requireIndex (value : Value) : Eval Int :=
  match value with
  | .int index => pure index
  | other => Eval.fail (.indexKind other.kind)

/-- Pairs in order, each key before its value. -/
def evalPairs (evaluate : Evaluator) (scope : Nat) : List (Expr × Expr) → Entries → Eval Entries
  | [], entries => pure entries
  | (keyExpr, valueExpr) :: rest, entries => do
    let key ← requireKey (← evaluate keyExpr scope)
    let value ← evaluate valueExpr scope
    evalPairs evaluate scope rest (entries.set key value)

def list (evaluate : Evaluator) (scope : Nat) (elements : List Expr) : Eval Value := do
  let items ← evalAll evaluate scope elements
  return .list (← Eval.create (·.allocate (.list items)))

def dict (evaluate : Evaluator) (scope : Nat) (pairs : List (Expr × Expr)) : Eval Value := do
  let entries ← evalPairs evaluate scope pairs []
  return .dict (← Eval.create (·.allocate (.dict entries)))

def assign (evaluate : Evaluator) (scope : Nat) (name : String) (expr : Expr) : Eval Value := do
  let value ← evaluate expr scope
  Eval.change (·.bind scope name value)
  return value

def name (scope : Nat) (text : String) : Eval Value := do
  match ← Eval.read (·.lookup scope text) with
  | some value => return value
  | none => Eval.fail (.unbound text)

/-- The index of a list of some length, if it is one. -/
def inBounds (index : Int) (length : Nat) : Eval Nat :=
  if 0 ≤ index ∧ index < length then pure index.toNat else Eval.fail (.outOfBounds index length)

def subscript (evaluate : Evaluator) (scope : Nat) (target index : Expr) : Eval Value := do
  match ← evaluate target scope with
  | .list handle =>
    let offset ← requireIndex (← evaluate index scope)
    if offset < 0 then Eval.fail (.negativeIndex offset)
    else
      let items ← Eval.read (·.items handle)
      let position ← inBounds offset items.length
      return items.getD position .none
  | .dict handle =>
    let key ← requireKey (← evaluate index scope)
    return ((← Eval.read (·.entries handle)).find? key).getD .none
  | other => Eval.fail (.notSubscriptable other.kind)

/-- Stores into a container. The subscript is checked before the value is evaluated, the bounds after. -/
def store (evaluate : Evaluator) (scope : Nat) (target index expr : Expr) : Eval Value := do
  match ← evaluate target scope with
  | .list handle =>
    let offset ← requireIndex (← evaluate index scope)
    let value ← evaluate expr scope
    let items ← Eval.read (·.items handle)
    let position ← inBounds offset items.length
    Eval.change (·.setItem handle position value)
    return value
  | .dict handle =>
    let key ← requireKey (← evaluate index scope)
    let value ← evaluate expr scope
    Eval.change (·.setEntry handle key value)
    return value
  | other => Eval.fail (.notSubscriptable other.kind)

/-- Joins two values. -/
def combine (render : Value → Eval String) (joint : Joint) (left right : Value) : Eval Value :=
  match joint with
  | .arithmetic op => do Eval.ofExcept (arithmetic op (← Eval.drawTag) left right)
  | .logical op => Eval.ofExcept (logical op left right)
  | .equality comparator => Eval.ofExcept (equality comparator left right)
  | .comparison comparator => Eval.ofExcept (comparison comparator left right)
  | .concat => do return .text ((← render left) ++ (← render right))
  | .range => Eval.ofExcept (rangeBetween left right)

/-- Both operands are evaluated, left before right, whatever joins them. -/
def join (evaluate : Evaluator) (render : Value → Eval String) (scope : Nat) (joint : Joint)
    (left right : Expr) : Eval Value := do
  let a ← evaluate left scope
  let b ← evaluate right scope
  combine render joint a b

def negate (evaluate : Evaluator) (scope : Nat) (operand : Expr) : Eval Value := do
  match ← evaluate operand scope with
  | .bool b => return .bool !b
  | other => Eval.fail (.negationKind other.kind)

/-- Only the chosen branch is evaluated. -/
def conditional (evaluate : Evaluator) (scope : Nat) (condition yes no : Expr) : Eval Value := do
  match ← evaluate condition scope with
  | .bool true => evaluate yes scope
  | .bool false => evaluate no scope
  | other => Eval.fail (.conditionKind other.kind)

/-- What a loop goes through: how many items, fixed when it starts, and the item at an index when its turn
comes. -/
structure Course where
  count : Nat
  item : Store → Nat → Value

/-- Items of a list are read when their turn comes; the keys of a dictionary are those at the start. -/
def course (source : Value) : Eval Course :=
  match source with
  | .list handle => do
    let items ← Eval.read (·.items handle)
    return ⟨items.length, fun store index => (store.items handle).getD index .none⟩
  | .dict handle => do
    let keys := ((← Eval.read (·.entries handle)).map (·.1.toValue)).toArray
    return ⟨keys.size, fun _ index => keys.getD index .none⟩
  | .range first last => pure ⟨rangeSize first last, fun _ index => .int (rangeItem first last index)⟩
  | other => Eval.fail (.notIterable other.kind)

/-- The turns of a loop that are still to come. -/
def turns (evaluate : Evaluator) (scope : Nat) (name : String) (body : Expr) (course : Course) :
    (left : Nat) → Value → Eval Value
  | 0, last => pure last
  | left + 1, _ => do
    let item ← Eval.read (course.item · (course.count - (left + 1)))
    Eval.change (·.bind scope name item)
    let value ← evaluate body scope
    turns evaluate scope name body course left value

/-- The loop's name is bound in the scope around it, and outlives the loop. -/
def loop (evaluate : Evaluator) (scope : Nat) (name : String) (source body : Expr) : Eval Value := do
  let through ← course (← evaluate source scope)
  turns evaluate scope name body through through.count .none

def function (scope : Nat) (name : String) (parameters : List String) (body : Expr) : Eval Value := do
  let value := Value.function name parameters body
  Eval.change (·.bind scope name value)
  return value

/-- The number of arguments is checked before any of them is evaluated. -/
def call (evaluate : Evaluator) (scope : Nat) (text : String) (arguments : List Expr) : Eval Value := do
  match ← name scope text with
  | .function _ parameters body =>
    if parameters.length ≠ arguments.length then
      Eval.fail (.arity text parameters.length arguments.length)
    else
      let values ← evalAll evaluate scope arguments
      let inner ← Eval.create (·.addCall scope (Bindings.ofPairs (parameters.zip values)))
      evaluate body inner
  | _ => Eval.fail (.notCallable text)

/-- What printing an expression writes: nothing for the word `none` itself. -/
def printed (evaluate : Evaluator) (render : Value → Eval String) (scope : Nat) (expr : Expr) : Eval String :=
  match expr with
  | .none _ => pure ""
  | other => do render (← evaluate other scope)

def print (evaluate : Evaluator) (render : Value → Eval String) (scope : Nat) (expr : Expr)
    (newline : Bool) : Eval Value := do
  let text ← printed evaluate render scope expr
  Eval.change (·.write scope (if newline then text ++ "\n" else text))
  return .none

def literal (kind : LiteralKind) (lexeme : String) : Eval Value :=
  match literalValue kind lexeme with
  | .ok value => pure value
  | .error halt => Eval.stop halt

/-- The rule of a node. -/
def apply (evaluate : Evaluator) (render : Value → Eval String) (scope : Nat) : Expr → Eval Value
  | .none _ => pure .none
  | .literal _ kind lexeme => literal kind lexeme
  | .name _ text => name scope text
  | .assign _ text expr => assign evaluate scope text expr
  | .list _ elements => list evaluate scope elements
  | .dict _ pairs => dict evaluate scope pairs
  | .subscript _ target index => subscript evaluate scope target index
  | .store _ target index expr => store evaluate scope target index expr
  | .join _ joint left right => join evaluate render scope joint left right
  | .negate _ operand => negate evaluate scope operand
  | .block _ body => evalBlock evaluate scope body .none
  | .conditional _ condition yes no => conditional evaluate scope condition yes no
  | .loop _ item source body => loop evaluate scope item source body
  | .function _ text parameters body => function scope text parameters body
  | .call _ text arguments => call evaluate scope text arguments
  | .print _ expr newline => print evaluate render scope expr newline
  | .unknown _ kind => Eval.fail (.unknownNode kind)

end Corvid.Rule
