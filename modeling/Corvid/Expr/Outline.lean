import Corvid.Expr
import Corvid.Text.Quoted

/-!
The outline of a tree: a line for each node and for each of its names, lexemes and flags, indented by depth.
Lists of children are written in place, one level below their node.
-/
namespace Corvid

def Operator.title : Operator → String
  | .add => "ADD"
  | .sub => "SUB"
  | .mul => "MUL"
  | .div => "DIV"
  | .and => "AND"
  | .or => "OR"

def Comparator.title : Comparator → String
  | .lt => "LT"
  | .le => "LE"
  | .gt => "GT"
  | .ge => "GE"
  | .eq => "EQ"
  | .ne => "NE"

def LiteralKind.title : LiteralKind → String
  | .string => "StringLiteral"
  | .int => "IntLiteral"
  | .float => "FloatLiteral"
  | .bool => "BoolLiteral"

/-- The title of a joined node, and of what joins it where the title leaves a choice. -/
def Joint.titles : Joint → List String × String
  | .arithmetic op => ([op.title], "Arithmetic")
  | .logical op => ([op.title], "LogicalOperator")
  | .equality comparator => ([comparator.title], "Equality")
  | .comparison comparator => ([comparator.title], "Compare")
  | .concat => ([], "Concatenate")
  | .range => ([], "RangeExpr")

namespace Expr

/-- One line of an outline: its depth and its text. -/
structure OutlineLine where
  level : Nat
  text : String
  deriving DecidableEq, Repr

mutual

def outlineLines (level : Nat) : Expr → List OutlineLine
  | none _ => [⟨level, "NoneLiteral"⟩]
  | literal _ kind lexeme => [⟨level, kind.title⟩, ⟨level + 1, Text.quoted lexeme⟩]
  | name _ text => [⟨level, "Deref"⟩, ⟨level + 1, Text.quoted text⟩]
  | assign _ text value =>
    ⟨level, "Assign"⟩ :: ⟨level + 1, Text.quoted text⟩ :: value.outlineLines (level + 1)
  | list _ elements => ⟨level, "ListExpr"⟩ :: outlineAll (level + 1) elements
  | dict _ pairs => ⟨level, "DictExpr"⟩ :: outlinePairs (level + 1) pairs
  | subscript _ target index =>
    ⟨level, "CollectionDeref"⟩ :: target.outlineLines (level + 1) ++ index.outlineLines (level + 1)
  | store _ target index value =>
    ⟨level, "CollectionAssign"⟩ :: target.outlineLines (level + 1) ++ index.outlineLines (level + 1) ++
      value.outlineLines (level + 1)
  | join _ joint left right =>
    ⟨level, joint.titles.2⟩ :: joint.titles.1.map (⟨level + 1, ·⟩) ++ left.outlineLines (level + 1) ++
      right.outlineLines (level + 1)
  | negate _ operand => ⟨level, "Negate"⟩ :: operand.outlineLines (level + 1)
  | block _ body => ⟨level, "Block"⟩ :: outlineAll (level + 1) body
  | conditional _ condition yes no =>
    ⟨level, "Conditional"⟩ :: condition.outlineLines (level + 1) ++ yes.outlineLines (level + 1) ++
      no.outlineLines (level + 1)
  | loop _ item source body =>
    ⟨level, "ForLoop"⟩ :: ⟨level + 1, Text.quoted item⟩ :: source.outlineLines (level + 1) ++
      body.outlineLines (level + 1)
  | function _ text parameters body =>
    ⟨level, "DeclareFn"⟩ :: ⟨level + 1, Text.quoted text⟩ ::
      parameters.map (⟨level + 1, Text.quoted ·⟩) ++ body.outlineLines (level + 1)
  | call _ text arguments =>
    ⟨level, "InvokeFn"⟩ :: ⟨level + 1, Text.quoted text⟩ :: outlineAll (level + 1) arguments
  | print _ shown newline =>
    ⟨level, "Print"⟩ :: shown.outlineLines (level + 1) ++
      [⟨level + 1, if newline then "True" else "False"⟩]
  | unknown _ kind => [⟨level, kind⟩]

def outlineAll (level : Nat) : List Expr → List OutlineLine
  | [] => []
  | expr :: rest => expr.outlineLines level ++ outlineAll level rest

def outlinePairs (level : Nat) : List (Expr × Expr) → List OutlineLine
  | [] => []
  | (key, value) :: rest => key.outlineLines level ++ value.outlineLines level ++ outlinePairs level rest

end

/-- A line as it is written: the indentation once for each level, the text, a line end. -/
def OutlineLine.render (indent : String) (line : OutlineLine) : String :=
  String.join (List.replicate line.level indent) ++ line.text ++ "\n"

/-- The whole outline. -/
def outline (indent : String) (expr : Expr) : String :=
  String.join ((expr.outlineLines 0).map (·.render indent))

end Expr

end Corvid
