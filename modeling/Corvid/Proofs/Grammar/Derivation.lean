import Corvid.Parser

/-!
The grammar of the language, written as derivation trees: one way of building a tree for each production, and
every token that a production mentions kept as a leaf. Nothing here refers to how programs are read; the
levels of operators show only in the categories that a production joins.

A derivation gives two things: the tokens it derives, in order, and the expression it stands for. Statements
and expressions are the same category, and so are the inside of a program and the inside of a block.
-/
namespace Corvid.Grammar

/-- Categories that stand for one expression, from the loosest to the tightest. -/
inductive Tier where
  | expression | disjunction | conjunction | negation | comparison | concatenation | range | sum | product
  | unary | operand | atom | block | conditional | loop | function
  deriving DecidableEq, Repr

inductive Category where
  | tier (tier : Tier)
  /-- The inside of a program or a block. -/
  | body
  /-- One or more statements, with separators between them. -/
  | statements
  /-- One or more expressions, with commas between them. -/
  | items
  /-- One or more pairs of a key and a value, with commas between them. -/
  | pairs
  /-- One or more names, with commas between them. -/
  | parameters
  deriving DecidableEq, Repr

/-- What a derivation of a category stands for. -/
@[reducible] def Category.Meaning : Category → Type
  | .tier _ => Expr
  | .body | .statements | .items => List Expr
  | .pairs => List (Expr × Expr)
  | .parameters => List String

/-- A token of one kind. -/
structure Leaf (kind : Token.Kind) where
  token : Token
  fits : token.kind = kind

abbrev Separator := Leaf .separator
abbrev Word (word : Keyword) := Leaf (.keyword word)
abbrev Sign (sign : Symbol) := Leaf (.symbol sign)

/-- The token of an optional leaf. -/
def optional {kind : Token.Kind} : Option (Leaf kind) → List Token
  | none => []
  | some leaf => [leaf.token]

/-- The productions of two operands: `Binary category left sign right` is `category: left sign right`, and the
last argument is the node that it builds. -/
inductive Binary : Tier → Tier → Token.Kind → Tier → Joint → Prop where
  | or : Binary .disjunction .disjunction (.keyword .kwOr) .conjunction (.logical .or)
  | and : Binary .conjunction .conjunction (.keyword .kwAnd) .negation (.logical .and)
  | equal : Binary .comparison .concatenation (.symbol .equal) .concatenation (.equality .eq)
  | notEqual : Binary .comparison .concatenation (.symbol .notEqual) .concatenation (.equality .ne)
  | less : Binary .comparison .concatenation (.symbol .less) .concatenation (.comparison .lt)
  | lessEqual : Binary .comparison .concatenation (.symbol .lessEqual) .concatenation (.comparison .le)
  | greater : Binary .comparison .concatenation (.symbol .greater) .concatenation (.comparison .gt)
  | greaterEqual : Binary .comparison .concatenation (.symbol .greaterEqual) .concatenation (.comparison .ge)
  | concat : Binary .concatenation .concatenation (.symbol .concat) .range .concat
  | range : Binary .range .sum (.symbol .range) .sum .range
  | add : Binary .sum .sum (.symbol .plus) .product (.arithmetic .add)
  | sub : Binary .sum .sum (.symbol .minus) .product (.arithmetic .sub)
  | mul : Binary .product .product (.symbol .times) .unary (.arithmetic .mul)
  | div : Binary .product .product (.symbol .divide) .unary (.arithmetic .div)

/-- The productions that only pass a tighter category on. -/
inductive Passes : Tier → Tier → Prop where
  | disjunction : Passes .expression .disjunction
  | conjunction : Passes .disjunction .conjunction
  | negation : Passes .conjunction .negation
  | comparison : Passes .negation .comparison
  | concatenation : Passes .comparison .concatenation
  | range : Passes .concatenation .range
  | sum : Passes .range .sum
  | product : Passes .sum .product
  | unary : Passes .product .unary
  | operand : Passes .unary .operand
  | atom : Passes .operand .atom
  | block : Passes .atom .block
  | conditional : Passes .atom .conditional
  | loop : Passes .atom .loop
  | function : Passes .atom .function

/-- Which of the two printing words is meant. -/
def printWord (newline : Bool) : Keyword := if newline then .kwPrintln else .kwPrint

/-- The tokens that a minus may stand before to make a negative literal. -/
inductive Numeric : Token.Kind → Type where
  | int : Numeric .int
  | float : Numeric .float

/-- What may stand behind `else`: a block, or another conditional. -/
inductive Otherwise : Tier → Type where
  | block : Otherwise .block
  | conditional : Otherwise .conditional

inductive Derivation : Category → Type where
  | empty (lead : Option Separator) : Derivation .body
  | filled (lead : Option Separator) (all : Derivation .statements) (trail : Option Separator) : Derivation .body
  | oneStatement (only : Derivation (.tier .expression)) : Derivation .statements
  | moreStatements (front : Derivation .statements) (separator : Separator)
      (last : Derivation (.tier .expression)) : Derivation .statements
  | pass {outer inner : Tier} (rule : Passes outer inner) (inside : Derivation (.tier inner)) :
      Derivation (.tier outer)
  | assign (name : Leaf .name) (sign : Sign .assign) (value : Derivation (.tier .expression)) :
      Derivation (.tier .expression)
  | store (target : Derivation (.tier .operand)) (opening : Sign .openBracket)
      (index : Derivation (.tier .expression)) (closing : Sign .closeBracket) (sign : Sign .assign)
      (value : Derivation (.tier .expression)) : Derivation (.tier .expression)
  | join {tier before after : Tier} {kind : Token.Kind} {joint : Joint}
      (rule : Binary tier before kind after joint) (left : Derivation (.tier before)) (sign : Leaf kind)
      (right : Derivation (.tier after)) : Derivation (.tier tier)
  | negate (word : Word .kwNot) (operand : Derivation (.tier .negation)) : Derivation (.tier .negation)
  | negativeInt (sign : Sign .minus) (digits : Leaf .int) : Derivation (.tier .unary)
  | negativeFloat (sign : Sign .minus) (digits : Leaf .float) : Derivation (.tier .unary)
  | subscript (target : Derivation (.tier .operand)) (opening : Sign .openBracket)
      (index : Derivation (.tier .expression)) (closing : Sign .closeBracket) : Derivation (.tier .operand)
  | int (leaf : Leaf .int) : Derivation (.tier .atom)
  | float (leaf : Leaf .float) : Derivation (.tier .atom)
  | string (leaf : Leaf .string) : Derivation (.tier .atom)
  | truth (word : Word .kwTrue) : Derivation (.tier .atom)
  | falsity (word : Word .kwFalse) : Derivation (.tier .atom)
  | nothing (word : Word .kwNone) : Derivation (.tier .atom)
  | identifier (leaf : Leaf .name) : Derivation (.tier .atom)
  | callEmpty (name : Leaf .name) (opening : Sign .openParen) (closing : Sign .closeParen) :
      Derivation (.tier .atom)
  | call (name : Leaf .name) (opening : Sign .openParen) (arguments : Derivation .items)
      (closing : Sign .closeParen) : Derivation (.tier .atom)
  | printEmpty (newline : Bool) (word : Word (printWord newline)) (opening : Sign .openParen)
      (closing : Sign .closeParen) : Derivation (.tier .atom)
  | print (newline : Bool) (word : Word (printWord newline)) (opening : Sign .openParen)
      (shown : Derivation (.tier .expression)) (closing : Sign .closeParen) : Derivation (.tier .atom)
  | group (opening : Sign .openParen) (inside : Derivation (.tier .expression))
      (closing : Sign .closeParen) : Derivation (.tier .atom)
  | listEmpty (opening : Sign .openBracket) (closing : Sign .closeBracket) : Derivation (.tier .atom)
  | list (opening : Sign .openBracket) (elements : Derivation .items) (closing : Sign .closeBracket) :
      Derivation (.tier .atom)
  | dictEmpty (opening : Sign .openBracket) (colon : Sign .colon) (closing : Sign .closeBracket) :
      Derivation (.tier .atom)
  | dict (opening : Sign .openBracket) (entries : Derivation .pairs) (closing : Sign .closeBracket) :
      Derivation (.tier .atom)
  | oneItem (only : Derivation (.tier .expression)) : Derivation .items
  | moreItems (front : Derivation .items) (comma : Sign .comma) (last : Derivation (.tier .expression)) :
      Derivation .items
  | onePair (key : Derivation (.tier .expression)) (colon : Sign .colon)
      (value : Derivation (.tier .expression)) : Derivation .pairs
  | morePairs (front : Derivation .pairs) (comma : Sign .comma) (key : Derivation (.tier .expression))
      (colon : Sign .colon) (value : Derivation (.tier .expression)) : Derivation .pairs
  | block (opening : Sign .openBrace) (body : Derivation .body) (closing : Sign .closeBrace) :
      Derivation (.tier .block)
  | ifOnly (word : Word .kwIf) (condition : Derivation (.tier .expression))
      (yes : Derivation (.tier .block)) : Derivation (.tier .conditional)
  | ifElse (word : Word .kwIf) (condition : Derivation (.tier .expression))
      (yes : Derivation (.tier .block)) (otherwise : Word .kwElse) (no : Derivation (.tier .block)) :
      Derivation (.tier .conditional)
  | ifChain (word : Word .kwIf) (condition : Derivation (.tier .expression))
      (yes : Derivation (.tier .block)) (otherwise : Word .kwElse)
      (no : Derivation (.tier .conditional)) : Derivation (.tier .conditional)
  | loop (word : Word .kwFor) (item : Leaf .name) (among : Word .kwIn)
      (source : Derivation (.tier .expression)) (body : Derivation (.tier .block)) :
      Derivation (.tier .loop)
  | functionEmpty (word : Word .kwFn) (name : Leaf .name) (opening : Sign .openParen)
      (closing : Sign .closeParen) (body : Derivation (.tier .block)) : Derivation (.tier .function)
  | function (word : Word .kwFn) (name : Leaf .name) (opening : Sign .openParen)
      (parameters : Derivation .parameters) (closing : Sign .closeParen)
      (body : Derivation (.tier .block)) : Derivation (.tier .function)
  | oneParameter (only : Leaf .name) : Derivation .parameters
  | moreParameters (front : Derivation .parameters) (comma : Sign .comma) (last : Leaf .name) :
      Derivation .parameters

namespace Derivation

/-- The tokens that are derived, in order. -/
def tokens : {category : Category} → Derivation category → List Token
  | _, empty lead => optional lead
  | _, filled lead all trail => optional lead ++ all.tokens ++ optional trail
  | _, oneStatement only => only.tokens
  | _, moreStatements front separator last => front.tokens ++ separator.token :: last.tokens
  | _, pass _ inside => inside.tokens
  | _, assign name sign value => name.token :: sign.token :: value.tokens
  | _, store target opening index closing sign value =>
    target.tokens ++ opening.token :: (index.tokens ++ closing.token :: sign.token :: value.tokens)
  | _, join _ left sign right => left.tokens ++ sign.token :: right.tokens
  | _, negate word operand => word.token :: operand.tokens
  | _, negativeInt sign digits => [sign.token, digits.token]
  | _, negativeFloat sign digits => [sign.token, digits.token]
  | _, subscript target opening index closing =>
    target.tokens ++ opening.token :: (index.tokens ++ [closing.token])
  | _, int leaf => [leaf.token]
  | _, float leaf => [leaf.token]
  | _, string leaf => [leaf.token]
  | _, truth word => [word.token]
  | _, falsity word => [word.token]
  | _, nothing word => [word.token]
  | _, identifier leaf => [leaf.token]
  | _, callEmpty name opening closing => [name.token, opening.token, closing.token]
  | _, call name opening arguments closing =>
    name.token :: opening.token :: (arguments.tokens ++ [closing.token])
  | _, printEmpty _ word opening closing => [word.token, opening.token, closing.token]
  | _, print _ word opening shown closing =>
    word.token :: opening.token :: (shown.tokens ++ [closing.token])
  | _, group opening inside closing => opening.token :: (inside.tokens ++ [closing.token])
  | _, listEmpty opening closing => [opening.token, closing.token]
  | _, list opening elements closing => opening.token :: (elements.tokens ++ [closing.token])
  | _, dictEmpty opening colon closing => [opening.token, colon.token, closing.token]
  | _, dict opening entries closing => opening.token :: (entries.tokens ++ [closing.token])
  | _, oneItem only => only.tokens
  | _, moreItems front comma last => front.tokens ++ comma.token :: last.tokens
  | _, onePair key colon value => key.tokens ++ colon.token :: value.tokens
  | _, morePairs front comma key colon value =>
    front.tokens ++ comma.token :: (key.tokens ++ colon.token :: value.tokens)
  | _, block opening body closing => opening.token :: (body.tokens ++ [closing.token])
  | _, ifOnly word condition yes => word.token :: (condition.tokens ++ yes.tokens)
  | _, ifElse word condition yes otherwise no =>
    word.token :: (condition.tokens ++ yes.tokens ++ otherwise.token :: no.tokens)
  | _, ifChain word condition yes otherwise no =>
    word.token :: (condition.tokens ++ yes.tokens ++ otherwise.token :: no.tokens)
  | _, loop word item among source body =>
    word.token :: item.token :: among.token :: (source.tokens ++ body.tokens)
  | _, functionEmpty word name opening closing body =>
    word.token :: name.token :: opening.token :: closing.token :: body.tokens
  | _, function word name opening parameters closing body =>
    word.token :: name.token :: opening.token :: (parameters.tokens ++ closing.token :: body.tokens)
  | _, oneParameter only => [only.token]
  | _, moreParameters front comma last => front.tokens ++ [comma.token, last.token]

/-- Where the first token stands. -/
def start {category : Category} (derivation : Derivation category) : Position :=
  match derivation.tokens with
  | [] => .start
  | token :: _ => token.position

/-- The mark of the node that a production builds: the place of its first token. -/
def mark {category : Category} (derivation : Derivation category) : Mark := .spot derivation.start

/-- What is derived, with the place of each node. A group stands for what is inside it, with its own place. -/
def meaning : {category : Category} → Derivation category → category.Meaning
  | _, empty _ => ([] : List Expr)
  | _, filled _ all _ => (all.meaning : List Expr)
  | _, oneStatement only => [(only.meaning : Expr)]
  | _, moreStatements front _ last => (front.meaning : List Expr) ++ [(last.meaning : Expr)]
  | _, pass _ inside => (inside.meaning : Expr)
  | _, assign name _ value => Expr.assign name.token.mark name.token.text value.meaning
  | _, store target _ index _ _ value => Expr.store target.mark target.meaning index.meaning value.meaning
  | _, @join _ _ _ _ joint _ left _ right => Expr.join left.mark joint left.meaning right.meaning
  | _, negate word operand => Expr.negate word.token.mark operand.meaning
  | _, negativeInt sign digits => Expr.literal sign.token.mark .int ("-" ++ digits.token.text)
  | _, negativeFloat sign digits => Expr.literal sign.token.mark .float ("-" ++ digits.token.text)
  | _, subscript target _ index _ => Expr.subscript target.mark target.meaning index.meaning
  | _, int leaf => Expr.literal leaf.token.mark .int leaf.token.text
  | _, float leaf => Expr.literal leaf.token.mark .float leaf.token.text
  | _, string leaf => Expr.literal leaf.token.mark .string leaf.token.text
  | _, truth word => Expr.literal word.token.mark .bool "true"
  | _, falsity word => Expr.literal word.token.mark .bool "false"
  | _, nothing word => Expr.none word.token.mark
  | _, identifier leaf => Expr.name leaf.token.mark leaf.token.text
  | _, callEmpty name _ _ => Expr.call name.token.mark name.token.text []
  | _, call name _ arguments _ => Expr.call name.token.mark name.token.text arguments.meaning
  | _, printEmpty newline word _ _ => Expr.print word.token.mark (.none .absent) newline
  | _, print newline word _ shown _ => Expr.print word.token.mark shown.meaning newline
  | _, group _ inside _ => (inside.meaning : Expr)
  | _, listEmpty opening _ => Expr.list opening.token.mark []
  | _, list opening elements _ => Expr.list opening.token.mark elements.meaning
  | _, dictEmpty opening _ _ => Expr.dict opening.token.mark []
  | _, dict opening entries _ => Expr.dict opening.token.mark entries.meaning
  | _, oneItem only => [(only.meaning : Expr)]
  | _, moreItems front _ last => (front.meaning : List Expr) ++ [(last.meaning : Expr)]
  | _, onePair key _ value => [((key.meaning : Expr), (value.meaning : Expr))]
  | _, morePairs front _ key _ value =>
    (front.meaning : List (Expr × Expr)) ++ [((key.meaning : Expr), (value.meaning : Expr))]
  | _, block opening body _ => Expr.block opening.token.mark body.meaning
  | _, ifOnly word condition yes =>
    Expr.conditional word.token.mark condition.meaning yes.meaning (.block .absent [])
  | _, ifElse word condition yes _ no =>
    Expr.conditional word.token.mark condition.meaning yes.meaning no.meaning
  | _, ifChain word condition yes _ no =>
    Expr.conditional word.token.mark condition.meaning yes.meaning no.meaning
  | _, loop word item _ source body =>
    Expr.loop word.token.mark item.token.text source.meaning body.meaning
  | _, functionEmpty word name _ _ body =>
    Expr.function word.token.mark name.token.text [] body.meaning
  | _, function word name _ parameters _ body =>
    Expr.function word.token.mark name.token.text parameters.meaning body.meaning
  | _, oneParameter only => [only.token.text]
  | _, moreParameters front _ last => (front.meaning : List String) ++ [last.token.text]

/-! Productions that are alike -/

/-- A minus before the digits of a number of either kind. -/
def negative : {kind : Token.Kind} → Numeric kind → Sign .minus → Leaf kind → Derivation (.tier .unary)
  | _, .int, sign, digits => negativeInt sign digits
  | _, .float, sign, digits => negativeFloat sign digits

theorem tokens_negative {kind : Token.Kind} (number : Numeric kind) (sign : Sign .minus) (digits : Leaf kind) :
    (negative number sign digits).tokens = [sign.token, digits.token] := by
  cases number <;> rfl

/-- A conditional with what stands behind its `else`. -/
def withElse : {tier : Tier} → Otherwise tier → Word .kwIf → Derivation (.tier .expression) →
    Derivation (.tier .block) → Word .kwElse → Derivation (.tier tier) → Derivation (.tier .conditional)
  | _, .block, word, condition, yes, otherwise, no => ifElse word condition yes otherwise no
  | _, .conditional, word, condition, yes, otherwise, no => ifChain word condition yes otherwise no

section Else

variable {tier : Tier} (behind : Otherwise tier) (word : Word .kwIf) (condition : Derivation (.tier .expression))
  (yes : Derivation (.tier .block)) (otherwise : Word .kwElse) (no : Derivation (.tier tier))

theorem tokens_withElse : (withElse behind word condition yes otherwise no).tokens =
    word.token :: (condition.tokens ++ yes.tokens ++ otherwise.token :: no.tokens) := by
  cases behind <;> rfl

theorem meaning_withElse : (withElse behind word condition yes otherwise no).meaning =
    Expr.conditional word.token.mark condition.meaning yes.meaning no.meaning := by
  cases behind <;> rfl

end Else

/-- The expression of a derivation of a single expression. -/
def expr {tier : Tier} (derivation : Derivation (.tier tier)) : Expr := derivation.meaning

/-- Only the inside of a program or a block may be empty. -/
theorem tokens_ne_nil {category : Category} (derivation : Derivation category) (filled : category ≠ .body) :
    derivation.tokens ≠ [] := by
  induction derivation with
  | empty | filled => exact absurd rfl filled
  | pass _ _ ih | oneStatement _ ih | oneItem _ ih => exact ih (by simp)
  | _ => simp [tokens]

theorem start_append {inner outer : Category} {part : Derivation inner} {whole : Derivation outer}
    {rest : List Token} (tokens_eq : whole.tokens = part.tokens ++ rest) (filled : inner ≠ .body) :
    whole.start = part.start := by
  simp only [start, tokens_eq]
  cases found : part.tokens with
  | nil => exact absurd found (part.tokens_ne_nil filled)
  | cons token _ => rfl

@[simp] theorem start_join {tier before after : Tier} {kind : Token.Kind} {joint : Joint}
    (rule : Binary tier before kind after joint) (left : Derivation (.tier before)) (sign : Leaf kind)
    (right : Derivation (.tier after)) : (join rule left sign right).start = left.start :=
  start_append rfl (by simp)

@[simp] theorem start_subscript (target : Derivation (.tier .operand)) (opening : Sign .openBracket)
    (index : Derivation (.tier .expression)) (closing : Sign .closeBracket) :
    (subscript target opening index closing).start = target.start :=
  start_append rfl (by simp)

@[simp] theorem start_store (target : Derivation (.tier .operand)) (opening : Sign .openBracket)
    (index : Derivation (.tier .expression)) (closing : Sign .closeBracket) (sign : Sign .assign)
    (value : Derivation (.tier .expression)) :
    (store target opening index closing sign value).start = target.start :=
  start_append rfl (by simp)

/-- The tree of a program: a block of its statements. -/
def program (derivation : Derivation .body) : Expr :=
  .block (Parser.programMark derivation.tokens) derivation.meaning

end Derivation

end Corvid.Grammar
