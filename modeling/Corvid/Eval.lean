import Corvid.Eval.Rules

/-!
Evaluation of trees. Each node that is evaluated inside another, and each container that is written out
inside another, takes one from the depth that is left.
-/
namespace Corvid

/-- Writes a value out. -/
def showWithin (depth : Nat) (value : Value) : Eval String := fun store =>
  match store.text? depth value with
  | some text => (.ok text, store)
  | none => (.error .tooDeep, store)

/-- Evaluates an expression in a scope. -/
def evalWithin : (depth : Nat) → Expr → (scope : Nat) → Eval Value
  | 0, _, _ => Eval.stop .tooDeep
  | depth + 1, expr, scope =>
    Eval.locate expr.mark (Rule.apply (evalWithin depth) (showWithin depth) scope expr)

/-- Evaluates an expression in a scope of a store, nested no deeper than a limit. -/
def Store.eval (store : Store) (limit scope : Nat) (expr : Expr) : Except Halt Value × Store :=
  evalWithin limit expr scope store

end Corvid
