import Corvid.Position

/-!
The expression tree. Everything in the language is an expression, blocks and function definitions
included. Each node carries a mark, which says where it begins and never takes part in comparing trees.
-/
namespace Corvid

inductive Operator where
  | add | sub | mul | div | and | or
  deriving DecidableEq, Repr

def Operator.symbol : Operator → String
  | .add => "+"
  | .sub => "-"
  | .mul => "*"
  | .div => "/"
  | .and => "and"
  | .or => "or"

inductive Comparator where
  | lt | le | gt | ge | eq | ne
  deriving DecidableEq, Repr

def Comparator.symbol : Comparator → String
  | .lt => "<"
  | .le => "<="
  | .gt => ">"
  | .ge => ">="
  | .eq => "=="
  | .ne => "!="

/-- What joins two operands. Any operator may stand in an arithmetic or logical node and any comparator in
an equality or comparison; those that make no sense there are found out when the node is evaluated. -/
inductive Joint where
  | arithmetic (op : Operator)
  | logical (op : Operator)
  | equality (comparator : Comparator)
  | comparison (comparator : Comparator)
  | concat
  | range
  deriving DecidableEq, Repr

inductive LiteralKind where
  | string | int | float | bool
  deriving DecidableEq, Repr

inductive Expr where
  | none (mark : Mark)
  /-- A literal as it was written; the lexeme of a string keeps its quotes. -/
  | literal (mark : Mark) (kind : LiteralKind) (lexeme : String)
  | name (mark : Mark) (name : String)
  | assign (mark : Mark) (name : String) (value : Expr)
  | list (mark : Mark) (elements : List Expr)
  | dict (mark : Mark) (pairs : List (Expr × Expr))
  | subscript (mark : Mark) (target index : Expr)
  | store (mark : Mark) (target index value : Expr)
  | join (mark : Mark) (joint : Joint) (left right : Expr)
  | negate (mark : Mark) (operand : Expr)
  | block (mark : Mark) (body : List Expr)
  | conditional (mark : Mark) (condition yes no : Expr)
  | loop (mark : Mark) (item : String) (source body : Expr)
  | function (mark : Mark) (name : String) (parameters : List String) (body : Expr)
  | call (mark : Mark) (name : String) (arguments : List Expr)
  | print (mark : Mark) (shown : Expr) (newline : Bool)
  /-- A node of a kind that the language does not have. -/
  | unknown (mark : Mark) (kind : String)

namespace Expr

def mark : Expr → Mark
  | none mark | literal mark .. | name mark .. | assign mark .. | list mark .. | dict mark ..
  | subscript mark .. | store mark .. | join mark .. | negate mark .. | block mark ..
  | conditional mark .. | loop mark .. | function mark .. | call mark .. | print mark ..
  | unknown mark .. => mark

mutual

/-- The tree without its marks. -/
def bare : Expr → Expr
  | none _ => none .absent
  | literal _ kind lexeme => literal .absent kind lexeme
  | name _ text => name .absent text
  | assign _ text value => assign .absent text value.bare
  | list _ elements => list .absent (bareAll elements)
  | dict _ pairs => dict .absent (barePairs pairs)
  | subscript _ target index => subscript .absent target.bare index.bare
  | store _ target index value => store .absent target.bare index.bare value.bare
  | join _ joint left right => join .absent joint left.bare right.bare
  | negate _ operand => negate .absent operand.bare
  | block _ body => block .absent (bareAll body)
  | conditional _ condition yes no => conditional .absent condition.bare yes.bare no.bare
  | loop _ item source body => loop .absent item source.bare body.bare
  | function _ text parameters body => function .absent text parameters body.bare
  | call _ text arguments => call .absent text (bareAll arguments)
  | print _ shown newline => print .absent shown.bare newline
  | unknown _ kind => unknown .absent kind

def bareAll : List Expr → List Expr
  | [] => []
  | expr :: rest => expr.bare :: bareAll rest

def barePairs : List (Expr × Expr) → List (Expr × Expr)
  | [] => []
  | (key, value) :: rest => (key.bare, value.bare) :: barePairs rest

end

mutual

/-- Whether two trees are equal, marks aside. -/
def alike : Expr → Expr → Bool
  | none _, none _ => true
  | literal _ kind lexeme, literal _ kind' lexeme' => kind == kind' && lexeme == lexeme'
  | name _ text, name _ text' => text == text'
  | assign _ text value, assign _ text' value' => text == text' && value.alike value'
  | list _ elements, list _ elements' => alikeAll elements elements'
  | dict _ pairs, dict _ pairs' => alikePairs pairs pairs'
  | subscript _ target index, subscript _ target' index' => target.alike target' && index.alike index'
  | store _ target index value, store _ target' index' value' =>
    target.alike target' && index.alike index' && value.alike value'
  | join _ joint left right, join _ joint' left' right' =>
    joint == joint' && left.alike left' && right.alike right'
  | negate _ operand, negate _ operand' => operand.alike operand'
  | block _ body, block _ body' => alikeAll body body'
  | conditional _ condition yes no, conditional _ condition' yes' no' =>
    condition.alike condition' && yes.alike yes' && no.alike no'
  | loop _ item source body, loop _ item' source' body' =>
    item == item' && source.alike source' && body.alike body'
  | function _ text parameters body, function _ text' parameters' body' =>
    text == text' && parameters == parameters' && body.alike body'
  | call _ text arguments, call _ text' arguments' => text == text' && alikeAll arguments arguments'
  | print _ shown newline, print _ shown' newline' => newline == newline' && shown.alike shown'
  | unknown _ kind, unknown _ kind' => kind == kind'
  | _, _ => false

def alikeAll : List Expr → List Expr → Bool
  | [], [] => true
  | expr :: rest, expr' :: rest' => expr.alike expr' && alikeAll rest rest'
  | _, _ => false

def alikePairs : List (Expr × Expr) → List (Expr × Expr) → Bool
  | [], [] => true
  | (key, value) :: rest, (key', value') :: rest' =>
    key.alike key' && value.alike value' && alikePairs rest rest'
  | _, _ => false

end

end Expr

end Corvid
