import Corvid.Proofs.Marks.Remark
import Corvid.Proofs.Parsing
import Corvid.Proofs.Token.Lexeme

/-!
Trees that a text can have: names and literals are spelled as tokens are, every operator stands in a node of its
own family, and bodies and branches are blocks. All trees that are read from texts are of this form.
-/
namespace Corvid

/-- A name that is not reserved. -/
def Named (text : String) : Prop := Token.Lexeme .name text.toList

/-- A number with or without a minus sign. -/
def Signed (kind : Token.Kind) (text : String) : Prop :=
  ∃ number : String, Token.Lexeme kind number.toList ∧ (text = number ∨ text = "-" ++ number)

/-- How literals of each kind are spelled. -/
def LiteralKind.Spelled : LiteralKind → String → Prop
  | .string, lexeme => Token.Lexeme .string lexeme.toList
  | .int, lexeme => Signed .int lexeme
  | .float, lexeme => Signed .float lexeme
  | .bool, lexeme => lexeme = "true" ∨ lexeme = "false"

/-- Joints with an operator of their own family. -/
def Joint.Matched : Joint → Prop
  | .arithmetic op => op = .add ∨ op = .sub ∨ op = .mul ∨ op = .div
  | .logical op => op = .and ∨ op = .or
  | .equality comparator => comparator = .eq ∨ comparator = .ne
  | .comparison comparator => comparator = .lt ∨ comparator = .le ∨ comparator = .gt ∨ comparator = .ge
  | .concat | .range => True

namespace Expr

def IsBlock (expr : Expr) : Prop := ∃ mark body, expr = .block mark body

def IsConditional (expr : Expr) : Prop := ∃ mark condition yes no, expr = .conditional mark condition yes no

/-- Trees that a text can have. -/
inductive Expressible : Expr → Prop where
  | none (mark : Mark) : Expressible (.none mark)
  | literal {kind : LiteralKind} {lexeme : String} (mark : Mark) (spelled : kind.Spelled lexeme) :
      Expressible (.literal mark kind lexeme)
  | name {text : String} (mark : Mark) (named : Named text) : Expressible (.name mark text)
  | assign {text : String} {value : Expr} (mark : Mark) (named : Named text) (inside : Expressible value) :
      Expressible (.assign mark text value)
  | list {elements : List Expr} (mark : Mark) (inside : ∀ element ∈ elements, Expressible element) :
      Expressible (.list mark elements)
  | dict {pairs : List (Expr × Expr)} (mark : Mark) (keys : ∀ pair ∈ pairs, Expressible pair.1)
      (values : ∀ pair ∈ pairs, Expressible pair.2) : Expressible (.dict mark pairs)
  | subscript {target index : Expr} (mark : Mark) (container : Expressible target) (place : Expressible index) :
      Expressible (.subscript mark target index)
  | store {target index value : Expr} (mark : Mark) (container : Expressible target) (place : Expressible index)
      (inside : Expressible value) : Expressible (.store mark target index value)
  | join {joint : Joint} {left right : Expr} (mark : Mark) (matched : joint.Matched) (before : Expressible left)
      (after : Expressible right) : Expressible (.join mark joint left right)
  | negate {operand : Expr} (mark : Mark) (inside : Expressible operand) : Expressible (.negate mark operand)
  | block {body : List Expr} (mark : Mark) (inside : ∀ statement ∈ body, Expressible statement) :
      Expressible (.block mark body)
  | conditional {condition yes no : Expr} (mark : Mark) (test : Expressible condition) (chosen : yes.IsBlock)
      (other : no.IsBlock ∨ no.IsConditional) (first : Expressible yes) (second : Expressible no) :
      Expressible (.conditional mark condition yes no)
  | loop {item : String} {source body : Expr} (mark : Mark) (named : Named item) (among : Expressible source)
      (enclosed : body.IsBlock) (inside : Expressible body) : Expressible (.loop mark item source body)
  | function {text : String} {parameters : List String} {body : Expr} (mark : Mark) (named : Named text)
      (all : ∀ parameter ∈ parameters, Named parameter) (enclosed : body.IsBlock) (inside : Expressible body) :
      Expressible (.function mark text parameters body)
  | call {text : String} {arguments : List Expr} (mark : Mark) (named : Named text)
      (inside : ∀ argument ∈ arguments, Expressible argument) : Expressible (.call mark text arguments)
  | print {shown : Expr} (mark : Mark) (inside : Expressible shown) (newline : Bool) :
      Expressible (.print mark shown newline)

/-! Marks make no difference -/

section

variable {change : Mark → Mark}

theorem IsBlock.of_remark_eq {expr other : Expr} (enclosed : expr.IsBlock)
    (same : other.remark change = expr.remark change) : other.IsBlock := by
  obtain ⟨mark, body, rfl⟩ := enclosed
  cases other with
  | block mark body => exact ⟨mark, body, rfl⟩
  | _ => cases same

theorem IsConditional.of_remark_eq {expr other : Expr} (chained : expr.IsConditional)
    (same : other.remark change = expr.remark change) : other.IsConditional := by
  obtain ⟨mark, condition, yes, no, rfl⟩ := chained
  cases other with
  | conditional mark condition yes no => exact ⟨mark, condition, yes, no, rfl⟩
  | _ => cases same

/-- Members of lists that are alike under a function have counterparts. -/
theorem forall_of_map_eq {α β : Type} {f : α → β} {known other : List α} {fine fine' : α → Prop}
    (same : other.map f = known.map f) (all : ∀ item ∈ known, fine item)
    (transfer : ∀ item counterpart, f item = f counterpart → fine counterpart → fine' item) :
    ∀ item ∈ other, fine' item := by
  intro item member
  have image : f item ∈ known.map f := same ▸ List.mem_map_of_mem member
  obtain ⟨counterpart, there, alike⟩ := List.mem_map.mp image
  exact transfer item counterpart alike.symm (all counterpart there)

/-- A tree that differs from an expressible one in its marks only is expressible. -/
theorem Expressible.of_remark_eq {expr other : Expr} (expressible : expr.Expressible)
    (same : other.remark change = expr.remark change) : other.Expressible := by
  induction expressible generalizing other with
  | none mark =>
    cases other with
    | none => exact .none _
    | _ => cases same
  | literal mark spelled =>
    cases other with
    | literal =>
      simp only [remark, literal.injEq] at same
      obtain ⟨_, rfl, rfl⟩ := same
      exact .literal _ spelled
    | _ => cases same
  | name mark named =>
    cases other with
    | name =>
      simp only [remark, name.injEq] at same
      exact .name _ (same.2 ▸ named)
    | _ => cases same
  | assign mark named inside ih =>
    cases other with
    | assign =>
      simp only [remark, assign.injEq] at same
      exact .assign _ (same.2.1 ▸ named) (ih same.2.2)
    | _ => cases same
  | list mark inside ih =>
    cases other with
    | list =>
      simp only [remark, list.injEq, remarkAll_eq_map] at same
      exact .list _ (forall_of_map_eq same.2 ih fun _ _ alike fine => fine alike)
    | _ => cases same
  | dict mark keys values ih ih' =>
    cases other with
    | dict =>
      simp only [remark, dict.injEq, remarkPairs_eq_map] at same
      refine .dict _ (forall_of_map_eq same.2 ih fun _ _ alike fine => fine (congrArg Prod.fst alike)) ?_
      exact forall_of_map_eq same.2 ih' fun _ _ alike fine => fine (congrArg Prod.snd alike)
    | _ => cases same
  | subscript mark container place ih ih' =>
    cases other with
    | subscript =>
      simp only [remark, subscript.injEq] at same
      exact .subscript _ (ih same.2.1) (ih' same.2.2)
    | _ => cases same
  | store mark container place inside ih ih' ih'' =>
    cases other with
    | store =>
      simp only [remark, store.injEq] at same
      exact .store _ (ih same.2.1) (ih' same.2.2.1) (ih'' same.2.2.2)
    | _ => cases same
  | join mark matched before after ih ih' =>
    cases other with
    | join =>
      simp only [remark, join.injEq] at same
      exact .join _ (same.2.1 ▸ matched) (ih same.2.2.1) (ih' same.2.2.2)
    | _ => cases same
  | negate mark inside ih =>
    cases other with
    | negate =>
      simp only [remark, negate.injEq] at same
      exact .negate _ (ih same.2)
    | _ => cases same
  | block mark inside ih =>
    cases other with
    | block =>
      simp only [remark, block.injEq, remarkAll_eq_map] at same
      exact .block _ (forall_of_map_eq same.2 ih fun _ _ alike fine => fine alike)
    | _ => cases same
  | conditional mark test chosen branch first second ih ih' ih'' =>
    cases other with
    | conditional =>
      simp only [remark, conditional.injEq] at same
      obtain ⟨_, same, same', same''⟩ := same
      have branch := branch.imp (fun enclosed => enclosed.of_remark_eq same'')
        (fun chained => chained.of_remark_eq same'')
      exact .conditional _ (ih same) (chosen.of_remark_eq same') branch (ih' same') (ih'' same'')
    | _ => cases same
  | loop mark named among enclosed inside ih ih' =>
    cases other with
    | loop =>
      simp only [remark, loop.injEq] at same
      obtain ⟨_, rfl, same, same'⟩ := same
      exact .loop _ named (ih same) (enclosed.of_remark_eq same') (ih' same')
    | _ => cases same
  | function mark named all enclosed inside ih =>
    cases other with
    | function =>
      simp only [remark, function.injEq] at same
      obtain ⟨_, rfl, rfl, same⟩ := same
      exact .function _ named all (enclosed.of_remark_eq same) (ih same)
    | _ => cases same
  | call mark named inside ih =>
    cases other with
    | call =>
      simp only [remark, call.injEq, remarkAll_eq_map] at same
      exact .call _ (same.2.1 ▸ named) (forall_of_map_eq same.2.2 ih fun _ _ alike fine => fine alike)
    | _ => cases same
  | print mark inside newline ih =>
    cases other with
    | print =>
      simp only [remark, print.injEq] at same
      exact .print _ (ih same.2.1) _
    | _ => cases same

end

end Expr

/-! Trees of derivations -/

namespace Grammar

/-- Tokens whose texts are lexemes, separators aside. -/
def Lexical (tokens : List Token) : Prop :=
  ∀ token ∈ tokens, token.kind ≠ .separator → Token.Lexeme token.kind token.text.toList

@[simp] theorem lexical_cons {token : Token} {rest : List Token} : Lexical (token :: rest) ↔
    (token.kind ≠ .separator → Token.Lexeme token.kind token.text.toList) ∧ Lexical rest :=
  List.forall_mem_cons

@[simp] theorem lexical_append {front rest : List Token} :
    Lexical (front ++ rest) ↔ Lexical front ∧ Lexical rest :=
  List.forall_mem_append

theorem Leaf.lexeme {kind : Token.Kind} (leaf : Leaf kind)
    (lexical : leaf.token.kind ≠ .separator → Token.Lexeme leaf.token.kind leaf.token.text.toList)
    (solid : kind ≠ .separator) : Token.Lexeme kind leaf.token.text.toList := by
  rw [leaf.fits] at lexical
  exact lexical solid

/-- What derivations of a category stand for. -/
def Category.Expressible : (category : Category) → category.Meaning → Prop
  | .tier .block, expr => Expr.IsBlock expr ∧ Expr.Expressible expr
  | .tier .conditional, expr => Expr.IsConditional expr ∧ Expr.Expressible expr
  | .tier _, expr => Expr.Expressible expr
  | .body, exprs | .statements, exprs | .items, exprs => ∀ expr ∈ exprs, Expr.Expressible expr
  | .pairs, all => ∀ pair ∈ all, Expr.Expressible pair.1 ∧ Expr.Expressible pair.2
  | .parameters, names => ∀ name ∈ names, Named name

theorem Category.Expressible.expr {tier : Tier} {expr : Expr} (expressible : (Category.tier tier).Expressible expr) :
    expr.Expressible := by
  cases tier with
  | block | conditional => exact expressible.2
  | _ => exact expressible

theorem Binary.matched {tier before after : Tier} {kind : Token.Kind} {joint : Joint}
    (rule : Binary tier before kind after joint) : joint.Matched := by
  cases rule <;> simp [Joint.Matched]

/-- Derivations of lexical tokens stand for expressible trees. -/
theorem Derivation.expressible {category : Category} (derivation : Derivation category)
    (lexical : Lexical derivation.tokens) : category.Expressible derivation.meaning := by
  induction derivation with
  | empty lead => exact List.forall_mem_nil _
  | filled lead all trail ih =>
    simp only [tokens, lexical_append] at lexical
    exact ih lexical.1.2
  | oneStatement only ih | oneItem only ih => exact List.forall_mem_singleton.mpr (ih lexical).expr
  | moreStatements front separator last ih ih' | moreItems front separator last ih ih' =>
    simp only [tokens, lexical_append, lexical_cons] at lexical
    exact List.forall_mem_append.mpr
      ⟨ih lexical.1, List.forall_mem_singleton.mpr (ih' lexical.2.2).expr⟩
  | @pass outer inner rule inside ih =>
    have fine := (ih lexical).expr
    cases rule <;> exact fine
  | assign name sign value ih =>
    simp only [tokens, lexical_cons] at lexical
    exact .assign _ (name.lexeme lexical.1 (by simp)) (ih lexical.2.2)
  | store target opening index closing sign value ih ih' ih'' =>
    simp only [tokens, lexical_append, lexical_cons] at lexical
    exact .store _ (ih lexical.1) (ih' lexical.2.2.1) (ih'' lexical.2.2.2.2.2)
  | @join tier before after kind joint rule left sign right ih ih' =>
    simp only [tokens, lexical_append, lexical_cons] at lexical
    have fine : Expr.Expressible (join rule left sign right).meaning :=
      .join _ rule.matched (ih lexical.1).expr (ih' lexical.2.2).expr
    cases rule <;> exact fine
  | negate word operand ih =>
    simp only [tokens, lexical_cons] at lexical
    exact .negate _ (ih lexical.2)
  | negativeInt sign digits | negativeFloat sign digits =>
    simp only [tokens, lexical_cons] at lexical
    exact .literal _ ⟨_, digits.lexeme lexical.2.1 (by simp), .inr rfl⟩
  | subscript target opening index closing ih ih' =>
    simp only [tokens, lexical_append, lexical_cons] at lexical
    exact .subscript _ (ih lexical.1) (ih' lexical.2.2.1)
  | int leaf | float leaf =>
    simp only [tokens, lexical_cons] at lexical
    exact .literal _ ⟨_, leaf.lexeme lexical.1 (by simp), .inl rfl⟩
  | string leaf =>
    simp only [tokens, lexical_cons] at lexical
    exact .literal _ (leaf.lexeme lexical.1 (by simp))
  | truth word => exact .literal _ (.inl rfl)
  | falsity word => exact .literal _ (.inr rfl)
  | nothing word => exact .none _
  | identifier leaf =>
    simp only [tokens, lexical_cons] at lexical
    exact .name _ (leaf.lexeme lexical.1 (by simp))
  | callEmpty name opening closing =>
    simp only [tokens, lexical_cons] at lexical
    exact .call _ (name.lexeme lexical.1 (by simp)) (List.forall_mem_nil _)
  | call name opening arguments closing ih =>
    simp only [tokens, lexical_append, lexical_cons] at lexical
    exact .call _ (name.lexeme lexical.1 (by simp)) (ih lexical.2.2.1)
  | printEmpty newline word opening closing => exact .print _ (.none _) newline
  | print newline word opening shown closing ih =>
    simp only [tokens, lexical_append, lexical_cons] at lexical
    exact .print _ (ih lexical.2.2.1) newline
  | group opening inside closing ih =>
    simp only [tokens, lexical_append, lexical_cons] at lexical
    exact ih lexical.2.1
  | listEmpty opening closing => exact .list _ (List.forall_mem_nil _)
  | list opening elements closing ih =>
    simp only [tokens, lexical_append, lexical_cons] at lexical
    exact .list _ (ih lexical.2.1)
  | dictEmpty opening colon closing =>
    exact .dict _ (List.forall_mem_nil _) (List.forall_mem_nil _)
  | dict opening entries closing ih =>
    simp only [tokens, lexical_append, lexical_cons] at lexical
    have fine := ih lexical.2.1
    exact .dict _ (fun pair member => (fine pair member).1) (fun pair member => (fine pair member).2)
  | onePair key colon value ih ih' =>
    simp only [tokens, lexical_append, lexical_cons] at lexical
    exact List.forall_mem_singleton.mpr ⟨ih lexical.1, ih' lexical.2.2⟩
  | morePairs front comma key colon value ih ih' ih'' =>
    simp only [tokens, lexical_append, lexical_cons] at lexical
    exact List.forall_mem_append.mpr
      ⟨ih lexical.1, List.forall_mem_singleton.mpr ⟨ih' lexical.2.2.1, ih'' lexical.2.2.2.2⟩⟩
  | block opening body closing ih =>
    simp only [tokens, lexical_append, lexical_cons] at lexical
    exact ⟨⟨_, _, rfl⟩, .block _ (ih lexical.2.1)⟩
  | ifOnly word condition yes ih ih' =>
    simp only [tokens, lexical_append, lexical_cons] at lexical
    obtain ⟨enclosed, fine⟩ := ih' lexical.2.2
    have empty : Expr.Expressible (.block .absent []) := .block _ (List.forall_mem_nil _)
    exact ⟨⟨_, _, _, _, rfl⟩, .conditional _ (ih lexical.2.1) enclosed (.inl ⟨_, _, rfl⟩) fine empty⟩
  | ifElse word condition yes otherwise no ih ih' ih'' =>
    simp only [tokens, lexical_append, lexical_cons] at lexical
    obtain ⟨enclosed, fine⟩ := ih' lexical.2.1.2
    obtain ⟨enclosed', fine'⟩ := ih'' lexical.2.2.2
    exact ⟨⟨_, _, _, _, rfl⟩, .conditional _ (ih lexical.2.1.1) enclosed (.inl enclosed') fine fine'⟩
  | ifChain word condition yes otherwise no ih ih' ih'' =>
    simp only [tokens, lexical_append, lexical_cons] at lexical
    obtain ⟨enclosed, fine⟩ := ih' lexical.2.1.2
    obtain ⟨chained, fine'⟩ := ih'' lexical.2.2.2
    exact ⟨⟨_, _, _, _, rfl⟩, .conditional _ (ih lexical.2.1.1) enclosed (.inr chained) fine fine'⟩
  | loop word item among source body ih ih' =>
    simp only [tokens, lexical_append, lexical_cons] at lexical
    obtain ⟨enclosed, fine⟩ := ih' lexical.2.2.2.2
    exact .loop _ (item.lexeme lexical.2.1 (by simp)) (ih lexical.2.2.2.1) enclosed fine
  | functionEmpty word name opening closing body ih =>
    simp only [tokens, lexical_cons] at lexical
    obtain ⟨enclosed, fine⟩ := ih lexical.2.2.2.2
    exact .function _ (name.lexeme lexical.2.1 (by simp)) (List.forall_mem_nil _) enclosed fine
  | function word name opening parameters closing body ih ih' =>
    simp only [tokens, lexical_append, lexical_cons] at lexical
    obtain ⟨enclosed, fine⟩ := ih' lexical.2.2.2.2.2
    exact .function _ (name.lexeme lexical.2.1 (by simp)) (ih lexical.2.2.2.1) enclosed fine
  | oneParameter only =>
    simp only [tokens, lexical_cons] at lexical
    exact List.forall_mem_singleton.mpr (only.lexeme lexical.1 (by simp))
  | moreParameters front comma last ih =>
    simp only [tokens, lexical_append, lexical_cons] at lexical
    exact List.forall_mem_append.mpr
      ⟨ih lexical.1, List.forall_mem_singleton.mpr (last.lexeme lexical.2.2.1 (by simp))⟩

end Grammar

/-! Trees of texts -/

theorem Token.Splits.lexical {position : Position} {text : List Char} {tokens : List Token}
    (splits : Token.Splits position text tokens) : Grammar.Lexical tokens := by
  induction splits with
  | nil => exact List.forall_mem_nil _
  | space _ _ ih => exact ih
  | token starts _ ih => exact Grammar.lexical_cons.mpr ⟨fun solid => by simpa using starts.lexeme solid, ih⟩

/-- Every tree that is read from a text is an expressible block. -/
theorem Parser.parse_expressible {source : String} {tree : Expr} (read : Parser.parse source = .ok tree) :
    tree.IsBlock ∧ tree.Expressible := by
  obtain ⟨derivation, splits, rfl⟩ := Parser.parse_eq_ok_iff.mp read
  exact ⟨⟨_, _, rfl⟩, .block _ (derivation.expressible splits.lexical)⟩

end Corvid
