import Corvid.Proofs.Eval.Literal
import Corvid.Proofs.Eval.Requests
import Corvid.Proofs.Printing.Expressible

/-!
What the rule of a node stops with on its own account, while everything that it asks for succeeds. Most faults depend
on values alone. The others depend on how the node is written: a literal that stands for no value, a joint with an
operator of another family, a node of no known kind.
-/
namespace Corvid

/-- Faults that depend on values alone, and not on how a node is written. -/
def Fault.Plain : Fault → Prop
  | malformed .. | unknownNode _ | arithmeticOperator _ | logicalOperator _ | comparator _ => False
  | _ => True

/-- What the rule of a node may stop with while all the evaluations that it asks for succeed. -/
inductive Expr.Own : Expr → Halt → Prop where
  | deep (expr : Expr) : Own expr .tooDeep
  | plain (expr : Expr) {cause : Fault} (plain : cause.Plain) : Own expr (.fault cause .absent)
  | literal (mark : Mark) {kind : LiteralKind} {lexeme : String} {halt : Halt}
      (stops : literalValue kind lexeme = .error halt) : Own (.literal mark kind lexeme) halt
  | unmatched (mark : Mark) {joint : Joint} (left right : Expr) (odd : ¬joint.Matched) (cause : Fault) :
      Own (.join mark joint left right) (.fault cause .absent)
  | unknown (mark : Mark) (kind : String) : Own (.unknown mark kind) (.fault (.unknownNode kind) .absent)

/-- A rule knows no place: its faults get theirs from the node. -/
theorem Expr.Own.place {expr : Expr} {cause : Fault} {place : Mark} (own : expr.Own (.fault cause place)) :
    place = .absent := by
  cases own with
  | @literal _ kind lexeme _ stops =>
    have outcome := literalValue_outcome kind lexeme
    rw [stops] at outcome
    cases outcome
    rfl
  | _ => rfl

/-! Operators -/

/-- Values that refer to nothing in a store and have no body. -/
def Value.Atomic : Value → Prop
  | .list _ | .dict _ | .function .. => False
  | _ => True

/-- What the operator of a joint may give: an atomic value, or a fault that depends on the operands alone if the
operator is of the family of the joint. -/
inductive Joint.Outcome (joint : Joint) : Except Fault Value → Prop where
  | value {value : Value} (atomic : value.Atomic) : Outcome joint (.ok value)
  | fault {cause : Fault} (plain : joint.Matched → cause.Plain) : Outcome joint (.error cause)

theorem Operator.onIntegers_fault {op : Operator} (matched : (Joint.arithmetic op).Matched) {left right : Int}
    {cause : Fault} (stops : op.onIntegers left right = .error cause) : cause.Plain := by
  obtain rfl | rfl | rfl | rfl := matched
  · cases stops
  · cases stops
  · cases stops
  · rw [onIntegers] at stops
    split at stops <;> cases stops
    trivial

theorem Operator.onNumbers_fault {op : Operator} (matched : (Joint.arithmetic op).Matched) {fresh : Nat}
    {left right : Number} {cause : Fault} (stops : op.onNumbers fresh left right = .error cause) :
    cause.Plain := by
  obtain rfl | rfl | rfl | rfl := matched
  · cases stops
  · cases stops
  · cases stops
  · rw [onNumbers] at stops
    split at stops <;> cases stops
    trivial

theorem Value.number_fault {value : Value} {cause : Fault} (stops : value.number = .error cause) :
    cause.Plain := by
  cases value <;> cases stops <;> trivial

theorem repeated_outcome (joint : Joint) (content : String) (count : Int) :
    joint.Outcome (repeated content count) := by
  unfold repeated
  split
  · exact .fault fun _ => trivial
  · exact .value trivial

theorem arithmetic_outcome (op : Operator) (fresh : Nat) (left right : Value) :
    (Joint.arithmetic op).Outcome (arithmetic op fresh left right) := by
  unfold arithmetic
  split
  · exact repeated_outcome _ _ _
  · exact repeated_outcome _ _ _
  · next a b =>
    cases whole : op.onIntegers a b with
    | ok n => exact .value trivial
    | error cause => exact .fault fun matched => Operator.onIntegers_fault matched whole
  · cases known : left.number with
    | error cause => exact .fault fun _ => Value.number_fault known
    | ok a =>
      cases known' : right.number with
      | error cause => exact .fault fun _ => Value.number_fault known'
      | ok b =>
        cases result : op.onNumbers fresh a b with
        | error cause =>
          simp only [Bind.bind, Except.bind, result]
          exact .fault fun matched => Operator.onNumbers_fault matched result
        | ok number =>
          simp only [Bind.bind, Except.bind, result]
          exact .value trivial

theorem equality_outcome (comparator : Comparator) (left right : Value) :
    (Joint.equality comparator).Outcome (equality comparator left right) := by
  have settled (equal : Bool) : (Joint.equality comparator).Outcome (comparator.onEquality equal) := by
    cases comparator with
    | eq | ne => exact .value trivial
    | _ => exact .fault fun matched => by simp [Joint.Matched] at matched
  unfold equality
  split
  · exact settled _
  · exact settled _
  · exact settled _
  · exact settled _
  · exact .fault fun _ => trivial

theorem comparison_outcome (comparator : Comparator) (left right : Value) :
    (Joint.comparison comparator).Outcome (comparison comparator left right) := by
  have settled (below equal above : Bool) :
      (Joint.comparison comparator).Outcome (comparator.onOrder below equal above) := by
    cases comparator with
    | eq | ne => exact .fault fun matched => by simp [Joint.Matched] at matched
    | _ => exact .value trivial
  unfold comparison
  split
  · exact settled _ _ _
  · exact settled _ _ _
  · exact .fault fun _ => trivial

theorem logical_outcome (op : Operator) (left right : Value) :
    (Joint.logical op).Outcome (logical op left right) := by
  unfold logical
  split
  · cases op with
    | and | or => exact .value trivial
    | _ => exact .fault fun matched => by simp [Joint.Matched] at matched
  · exact .fault fun _ => trivial

theorem rangeBetween_outcome (low high : Value) : Joint.range.Outcome (rangeBetween low high) := by
  unfold rangeBetween
  split
  · exact .value trivial
  · exact .fault fun _ => trivial

/-- A writer that stops only where containers are nested too deeply. -/
def Rule.StopsDeep (render : Value → Eval String) : Prop :=
  ∀ value store halt after, render value store = (.error halt, after) → halt = .tooDeep

theorem showWithin_stopsDeep (depth : Nat) : Rule.StopsDeep (showWithin depth) := by
  intro value store halt after stops
  unfold showWithin at stops
  split at stops <;> cases stops
  rfl

end Corvid
