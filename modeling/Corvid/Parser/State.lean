import Corvid.Expr
import Corvid.Token

/-!
The state of reading an expression tree from tokens, one token at a time. A state is a stack of unclosed
constructs; each construct holds the operators that still wait for their right operand, loosest last.
Because every state reached so far can be completed to a program, the first token that has no next state
is the first one that no program can go on with.
-/
namespace Corvid.Parser

/-- A finished expression and the place where its text begins, parentheses around it included. -/
structure Phrase where
  expr : Expr
  start : Position

/-- A condition of a conditional with the block that it guards. -/
structure Branch where
  start : Position
  condition : Expr
  body : Expr

/-- A chain of branches, the innermost first, that ends in a last resort. -/
def chain (branches : List Branch) (last : Expr) : Expr :=
  branches.foldl (fun no branch => .conditional (.spot branch.start) branch.condition branch.body no) last

/-- What may follow an operand besides an operator. -/
inductive Ending where
  /-- Nothing in particular: a subscript may follow. -/
  | closed
  /-- A negative literal: not even a subscript may follow. -/
  | signed
  /-- A name by itself: it may be called or assigned to. -/
  | name (text : String)
  /-- A subscript by itself: it may be stored to. -/
  | subscript (target index : Expr)
  /-- A conditional without a last resort: `else` may follow. -/
  | branches (chain : List Branch)

structure Operand extends Phrase where
  ending : Ending

/-- An operator whose right operand has not been read yet. -/
inductive Waiting where
  | assign (start : Position) (name : String)
  | store (start : Position) (target index : Expr)
  | negate (start : Position)
  | join (start : Position) (joint : Joint) (left : Expr)

/-- What a block belongs to. -/
inductive Purpose where
  | plain
  | branch (head start : Position) (condition : Expr) (outer : List Branch)
  | lastResort (head : Position) (branches : List Branch)
  | loop (start : Position) (item : String) (source : Expr)
  | function (start : Position) (name : String) (parameters : List String)

/-- An unclosed construct. What it has collected so far stands in reverse order. -/
inductive Context where
  | program (done : List Expr)
  | block (start : Position) (purpose : Purpose) (done : List Expr)
  | group (start : Position)
  | subscript (target : Phrase)
  /-- After an opening bracket, before it is known whether a list or a dictionary follows. -/
  | bracket (start : Position)
  | list (start : Position) (done : List Expr)
  | key (start : Position) (done : List (Expr × Expr))
  | entry (start : Position) (done : List (Expr × Expr)) (key : Expr)
  | arguments (start : Position) (name : String) (done : List Expr)
  | print (start : Position) (newline : Bool)
  /-- After `if`; `head` is where the whole chain of conditions begins. -/
  | condition (head start : Position) (outer : List Branch)
  | source (start : Position) (item : String)

/-- A construct together with its waiting operators, the tightest first. -/
structure Layer where
  context : Context
  waiting : List Waiting

/-- What is read next. -/
inductive Mode where
  /-- The first thing inside a construct that may also be empty. -/
  | opening
  /-- A statement after a separator, or the end of the block. -/
  | resumed
  | operand
  | operator (operand : Operand)
  /-- The digits of a negative literal. -/
  | number (start : Position)
  | printParen (start : Position) (newline : Bool)
  | emptyDict (start : Position)
  | lastResort (head : Position) (branches : List Branch)
  | loopItem (start : Position)
  | loopIn (start : Position) (item : String)
  | functionName (start : Position)
  | functionParen (start : Position) (name : String)
  | firstParameter (start : Position) (name : String)
  | parameter (start : Position) (name : String) (done : List String)
  | parameterEnd (start : Position) (name : String) (done : List String)
  | functionBody (start : Position) (name : String) (parameters : List String)

structure State where
  mode : Mode
  layer : Layer
  outer : List Layer

/-- Before the first token. -/
def State.initial : State := ⟨.opening, ⟨.program [], []⟩, []⟩

end Corvid.Parser

namespace Corvid

/-- How tightly operands are bound; a higher level binds tighter. Assignment has level 0, negation 3. -/
def Joint.level : Joint → Nat
  | .logical .or => 1
  | .logical _ => 2
  | .equality _ | .comparison _ => 4
  | .concat => 5
  | .range => 6
  | .arithmetic .mul | .arithmetic .div => 8
  | .arithmetic _ => 7

/-- Whether `a • b • c` may be written, which then means `(a • b) • c`. -/
def Joint.chains : Joint → Bool
  | .equality _ | .comparison _ | .range => false
  | _ => true

/-- The joint that a token stands for between two operands. -/
def Token.Kind.joint? : Token.Kind → Option Joint
  | .keyword .kwOr => some (.logical .or)
  | .keyword .kwAnd => some (.logical .and)
  | .symbol .equal => some (.equality .eq)
  | .symbol .notEqual => some (.equality .ne)
  | .symbol .less => some (.comparison .lt)
  | .symbol .lessEqual => some (.comparison .le)
  | .symbol .greater => some (.comparison .gt)
  | .symbol .greaterEqual => some (.comparison .ge)
  | .symbol .concat => some .concat
  | .symbol .range => some .range
  | .symbol .plus => some (.arithmetic .add)
  | .symbol .minus => some (.arithmetic .sub)
  | .symbol .times => some (.arithmetic .mul)
  | .symbol .divide => some (.arithmetic .div)
  | _ => none

end Corvid
