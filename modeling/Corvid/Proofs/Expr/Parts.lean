import Corvid.Proofs.Marks.Remark
import Mathlib.Logic.Relation

/-!
The nodes of a tree. A function's body counts as a part of its declaration, although it is evaluated only when the
function is called.
-/
namespace Corvid.Expr

/-- The nodes directly below a node, in the order in which they are written. -/
def children : Expr → List Expr
  | none _ | literal .. | name .. | unknown .. => []
  | assign _ _ value => [value]
  | list _ elements => elements
  | dict _ pairs => pairs.flatMap fun pair => [pair.1, pair.2]
  | subscript _ target index => [target, index]
  | store _ target index value => [target, index, value]
  | join _ _ left right => [left, right]
  | negate _ operand => [operand]
  | block _ body => body
  | conditional _ condition yes no => [condition, yes, no]
  | loop _ _ source body => [source, body]
  | function _ _ _ body => [body]
  | call _ _ arguments => arguments
  | print _ shown _ => [shown]

/-- The nodes below a node that are evaluated in the same scope as the node itself. -/
def operands : Expr → List Expr
  | function .. => []
  | other => other.children

/-- The name that a node looks up. -/
def reads? : Expr → Option String
  | name _ text | call _ text _ => some text
  | _ => .none

/-- The name that a node binds. -/
def binds? : Expr → Option String
  | assign _ text _ | loop _ text _ _ | function _ text _ _ => some text
  | _ => .none

/-- A node of a tree: the tree itself or a node further down. -/
def Within (node tree : Expr) : Prop := Relation.ReflTransGen (fun whole part => part ∈ whole.children) tree node

theorem Within.child {node tree part : Expr} (within : node.Within tree) (below : part ∈ node.children) :
    part.Within tree :=
  Relation.ReflTransGen.tail within below

/-- A node of a tree that is evaluated in the same scope as the tree. -/
def Level (node tree : Expr) : Prop := Relation.ReflTransGen (fun whole part => part ∈ whole.operands) tree node

theorem Level.operand {node tree part : Expr} (level : node.Level tree) (below : part ∈ node.operands) :
    part.Level tree :=
  Relation.ReflTransGen.tail level below

theorem children_of_operands {part whole : Expr} (below : part ∈ whole.operands) : part ∈ whole.children := by
  cases whole with
  | function => cases below
  | _ => exact below

theorem Level.within {node tree : Expr} (level : node.Level tree) : node.Within tree :=
  Relation.ReflTransGen.mono (fun _ _ => children_of_operands) _ _ level

/-- What passes from nodes to the nodes directly below them holds everywhere in a tree. -/
theorem Within.induction {P : Expr → Prop} (down : ∀ whole part, part ∈ whole.children → P whole → P part)
    {node tree : Expr} (within : node.Within tree) (top : P tree) : P node := by
  induction within with
  | refl => exact top
  | tail _ below ih => exact down _ _ below ih

/-- A list that has the nodes directly below each of its nodes has all nodes of their trees. -/
theorem Within.mem_of_closed {nodes : List Expr} (closed : ∀ whole ∈ nodes, ∀ part ∈ whole.children, part ∈ nodes)
    {node tree : Expr} (within : node.Within tree) (member : tree ∈ nodes) : node ∈ nodes :=
  within.induction (fun whole part below there => closed whole there part below) member

theorem children_remark (change : Mark → Mark) (expr : Expr) :
    (expr.remark change).children = expr.children.map (remark change) := by
  cases expr with
  | dict mark pairs => simp [remark, children, List.map_flatMap, List.flatMap_map]
  | _ => simp [remark, children]

/-- Every node of a tree with changed marks is a node with changed marks. -/
theorem Within.of_remark {change : Mark → Mark} {node tree : Expr} (within : node.Within (tree.remark change)) :
    ∃ original : Expr, node = original.remark change := by
  apply within.induction
  · rintro whole part below ⟨original, rfl⟩
    rw [children_remark] at below
    obtain ⟨child, _, rfl⟩ := List.mem_map.mp below
    exact ⟨child, rfl⟩
  · exact ⟨tree, rfl⟩

end Corvid.Expr
