import Corvid.Proofs.Grammar.Joining
import Corvid.Proofs.Printing.Spacing

/-!
Printed trees are read back. The tokens of a printed tree have a derivation, which stands for that tree; where the
tokens stand makes no difference to it.
-/
namespace Corvid

open Piece Grammar

/-- The tokens of pieces, without their places. -/
def spellings (pieces : List Piece) : List (Token.Kind × String) := pieces.filterMap spelling?

@[simp] theorem spellings_nil : spellings [] = [] := rfl

@[simp] theorem spellings_token (kind : Token.Kind) (text : String) (rest : List Piece) :
    spellings (token kind text :: rest) = (kind, text) :: spellings rest := rfl

@[simp] theorem spellings_gap (rest : List Piece) : spellings (gap :: rest) = spellings rest := rfl

@[simp] theorem spellings_append (front rest : List Piece) :
    spellings (front ++ rest) = spellings front ++ spellings rest := List.filterMap_append ..

/-- Pieces whose tokens are derived in a category and stand for something, marks aside. -/
def Derives (category : Category) (pieces : List Piece) (meant : category.Meaning) : Prop :=
  ∃ derivation : Derivation category, derivation.tokens.map Token.spelling = spellings pieces ∧
    category.remark unmark derivation.meaning = category.remark unmark meant

/-! Tokens whose place is of no interest -/

def nameLeaf (text : String) : Leaf .name := ⟨⟨.name, text, .start⟩, rfl⟩

def signLeaf (symbol : Symbol) : Sign symbol := ⟨⟨.symbol symbol, symbol.text, .start⟩, rfl⟩

def wordLeaf (keyword : Keyword) : Word keyword := ⟨⟨.keyword keyword, keyword.text, .start⟩, rfl⟩

def dividerLeaf : Separator := ⟨⟨.separator, "; ", .start⟩, rfl⟩

@[simp] theorem spellings_name (text : String) (rest : List Piece) :
    spellings (Piece.name text :: rest) = (nameLeaf text).token.spelling :: spellings rest := rfl

@[simp] theorem spellings_sign (symbol : Symbol) (rest : List Piece) :
    spellings (sign symbol :: rest) = (signLeaf symbol).token.spelling :: spellings rest := rfl

@[simp] theorem spellings_word (keyword : Keyword) (rest : List Piece) :
    spellings (word keyword :: rest) = (wordLeaf keyword).token.spelling :: spellings rest := rfl

@[simp] theorem spellings_divider (rest : List Piece) :
    spellings (divider :: rest) = dividerLeaf.token.spelling :: spellings rest := rfl

namespace Derives

theorem looser {tier : Tier} {pieces : List Piece} {expr : Expr} (derives : Derives (.tier tier) pieces expr)
    (target : Tier) (le : target.level ≤ tier.level) (linear : tier.level ≤ 11) :
    Derives (.tier target) pieces expr := by
  obtain ⟨derivation, spelled, same⟩ := derives
  obtain ⟨again, tokens_eq, phrase_eq⟩ := derivation.exists_looser target le linear
  have meaning_eq : again.expr = derivation.expr := congrArg Parser.Phrase.expr phrase_eq
  exact ⟨again, tokens_eq ▸ spelled, (congrArg (Expr.remark unmark) meaning_eq).trans same⟩

theorem loosest {tier : Tier} {pieces : List Piece} {expr : Expr} (derives : Derives (.tier tier) pieces expr)
    (linear : tier.level ≤ 11) : Derives (.tier .expression) pieces expr :=
  derives.looser .expression (Nat.zero_le _) linear

theorem group {pieces : List Piece} {expr : Expr} (derives : Derives (.tier .expression) pieces expr) :
    Derives (.tier .atom) (group pieces) expr := by
  obtain ⟨derivation, spelled, same⟩ := derives
  exact ⟨.group (signLeaf _) derivation (signLeaf _), by simp [Derivation.tokens, spelled, Piece.group], same⟩

end Derives

/-! Lists of parts -/

/-- What holds of a single part and goes on to hold when a part is added holds of all chains of parts. -/
theorem chain_induction {α : Type} {between : List Piece} {part : α → List Piece}
    {whole : List Piece → List α → Prop} {each : α → Prop} (one : ∀ item, each item → whole (part item) [item])
    (more : ∀ pieces front item, whole pieces front → each item →
      whole (pieces ++ (between ++ part item)) (front ++ [item]))
    {items : List α} (all : ∀ item ∈ items, each item) (filled : items ≠ []) :
    whole (chain between (items.map part)) items := by
  obtain ⟨first, rest, rfl⟩ := List.exists_cons_of_ne_nil filled
  obtain ⟨head, others⟩ := List.forall_mem_cons.mp all
  -- lists are derived from the left, so what has been derived so far is the front of the whole
  have grow {rest : List α} (all : ∀ item ∈ rest, each item) {pieces : List Piece} {front : List α}
      (begun : whole pieces front) : whole (pieces ++ (rest.map part).flatMap (between ++ ·)) (front ++ rest) := by
    induction rest generalizing pieces front with
    | nil => simpa using begun
    | cons item rest ih =>
      obtain ⟨next, others⟩ := List.forall_mem_cons.mp all
      simpa using ih others (more pieces front item begun next)
  exact grow others (one first head)

namespace Derives

/-- A tree whose pieces are derived as an expression, and so in parentheses anywhere. -/
abbrev Written (expr : Expr) : Prop := Derives (.tier .expression) expr.pieces expr

theorem parenthesized {expr : Expr} (written : Written expr) :
    Derives (.tier .expression) (Piece.group expr.pieces) expr :=
  written.group.loosest (by decide)

theorem items {exprs : List Expr} (all : ∀ expr ∈ exprs, Written expr) (filled : exprs ≠ []) :
    Derives .items (chain [sign .comma, gap] (Expr.piecesAll exprs)) exprs := by
  rw [Expr.piecesAll_eq_map]
  refine chain_induction (fun expr written => ?_) (fun pieces front expr begun written => ?_) all filled
  · obtain ⟨only, spelled, same⟩ := written.parenthesized
    exact ⟨.oneItem only, spelled, congrArg (fun expr => [expr]) same⟩
  · obtain ⟨derivation, spelled, same⟩ := begun
    obtain ⟨last, spelled', same'⟩ := written.parenthesized
    refine ⟨.moreItems derivation (signLeaf _) last, by simp [Derivation.tokens, spelled, spelled'], ?_⟩
    simp only [Category.remark, Derivation.meaning, List.map_append, List.map_cons, List.map_nil] at same same' ⊢
    rw [same, same']

theorem statements {exprs : List Expr} (all : ∀ expr ∈ exprs, Written expr) (filled : exprs ≠ []) :
    Derives .statements (chain [divider] (Expr.piecesAll exprs)) exprs := by
  rw [Expr.piecesAll_eq_map]
  refine chain_induction (fun expr written => ?_) (fun pieces front expr begun written => ?_) all filled
  · obtain ⟨only, spelled, same⟩ := written.parenthesized
    exact ⟨.oneStatement only, spelled, congrArg (fun expr => [expr]) same⟩
  · obtain ⟨derivation, spelled, same⟩ := begun
    obtain ⟨last, spelled', same'⟩ := written.parenthesized
    refine ⟨.moreStatements derivation dividerLeaf last, by simp [Derivation.tokens, spelled, spelled'], ?_⟩
    simp only [Category.remark, Derivation.meaning, List.map_append, List.map_cons, List.map_nil] at same same' ⊢
    rw [same, same']

theorem body {exprs : List Expr} (all : ∀ expr ∈ exprs, Written expr) :
    Derives .body (chain [divider] (Expr.piecesAll exprs)) exprs := by
  by_cases filled : exprs = []
  · subst filled
    exact ⟨.empty none, rfl, rfl⟩
  · obtain ⟨derivation, spelled, same⟩ := statements all filled
    exact ⟨.filled none derivation none, by simp [Derivation.tokens, Grammar.optional, spelled], same⟩

theorem pairs {pairs : List (Expr × Expr)} (all : ∀ pair ∈ pairs, Written pair.1 ∧ Written pair.2)
    (filled : pairs ≠ []) : Derives .pairs (chain [sign .comma, gap] (Expr.piecesPairs pairs)) pairs := by
  rw [Expr.piecesPairs_eq_map]
  refine chain_induction (fun pair written => ?_) (fun pieces front pair begun written => ?_) all filled
  · obtain ⟨key, spelled, same⟩ := written.1.parenthesized
    obtain ⟨value, spelled', same'⟩ := written.2.parenthesized
    refine ⟨.onePair key (signLeaf _) value, by simp [Derivation.tokens, spelled, spelled'], ?_⟩
    simp only [Category.remark, Derivation.meaning, List.map_cons, List.map_nil] at same same' ⊢
    rw [same, same']
  · obtain ⟨derivation, spelled, same⟩ := begun
    obtain ⟨key, spelled', same'⟩ := written.1.parenthesized
    obtain ⟨value, spelled'', same''⟩ := written.2.parenthesized
    refine ⟨.morePairs derivation (signLeaf _) key (signLeaf _) value,
      by simp [Derivation.tokens, spelled, spelled', spelled''], ?_⟩
    simp only [Category.remark, Derivation.meaning, List.map_append, List.map_cons, List.map_nil]
      at same same' same'' ⊢
    rw [same, same', same'']

theorem parameters {names : List String} (filled : names ≠ []) :
    Derives .parameters (chain [sign .comma, gap] (names.map ([Piece.name ·]))) names := by
  refine chain_induction (fun name (_ : True) => ?_) (fun pieces front name begun _ => ?_)
    (fun _ _ => trivial) filled
  · exact ⟨.oneParameter (nameLeaf name), rfl, rfl⟩
  · obtain ⟨derivation, spelled, same⟩ := begun
    refine ⟨.moreParameters derivation (signLeaf _) (nameLeaf name), by simp [Derivation.tokens, spelled], ?_⟩
    exact congrArg (· ++ [name]) same

end Derives

/-! Trees -/

/-- The category that a tree is derived in without parentheses. -/
def ownTier : Expr → Tier
  | .block .. => .block
  | .conditional .. => .conditional
  | _ => .expression

theorem ownTier_block {expr : Expr} (enclosed : expr.IsBlock) : ownTier expr = .block := by
  obtain ⟨_, _, rfl⟩ := enclosed
  rfl

theorem ownTier_conditional {expr : Expr} (chained : expr.IsConditional) : ownTier expr = .conditional := by
  obtain ⟨_, _, _, _, rfl⟩ := chained
  rfl

namespace Derives

theorem pass {outer inner : Tier} {pieces : List Piece} {expr : Expr} (derives : Derives (.tier inner) pieces expr)
    (rule : Passes outer inner) : Derives (.tier outer) pieces expr := by
  obtain ⟨derivation, spelled, same⟩ := derives
  exact ⟨.pass rule derivation, spelled, same⟩

theorem written {pieces : List Piece} {expr : Expr} (derives : Derives (.tier .atom) pieces expr) :
    Derives (.tier .expression) pieces expr :=
  derives.loosest (by decide)

theorem of_own {expr : Expr} (derives : Derives (.tier (ownTier expr)) expr.pieces expr) : Written expr := by
  cases expr with
  | block => exact (derives.pass .block).written
  | conditional => exact (derives.pass .conditional).written
  | _ => exact derives

theorem number {kind : Token.Kind} {known : LiteralKind}
    (numeric : kind = .int ∧ known = .int ∨ kind = .float ∧ known = .float) {lexeme : String}
    (signed : Signed kind lexeme) (mark : Mark) :
    Derives (.tier .expression) (Piece.number kind lexeme) (.literal mark known lexeme) := by
  have digits : kind = .int ∨ kind = .float := numeric.imp And.left And.left
  obtain ⟨text, spelled, rfl | rfl⟩ := signed
  · rw [number_plain digits spelled]
    obtain ⟨rfl, rfl⟩ | ⟨rfl, rfl⟩ := numeric
    · exact written ⟨.int ⟨⟨.int, lexeme, .start⟩, rfl⟩, rfl, rfl⟩
    · exact written ⟨.float ⟨⟨.float, lexeme, .start⟩, rfl⟩, rfl, rfl⟩
  · rw [number_negative]
    obtain ⟨rfl, rfl⟩ | ⟨rfl, rfl⟩ := numeric
    · exact loosest ⟨.negativeInt (signLeaf _) ⟨⟨.int, text, .start⟩, rfl⟩, rfl, rfl⟩ (by decide)
    · exact loosest ⟨.negativeFloat (signLeaf _) ⟨⟨.float, text, .start⟩, rfl⟩, rfl, rfl⟩ (by decide)

theorem literal {kind : LiteralKind} {lexeme : String} (spelled : kind.Spelled lexeme) (mark : Mark) :
    Written (.literal mark kind lexeme) := by
  cases kind with
  | string => exact written ⟨.string ⟨⟨.string, lexeme, .start⟩, rfl⟩, rfl, rfl⟩
  | int => exact number (.inl ⟨rfl, rfl⟩) spelled mark
  | float => exact number (.inr ⟨rfl, rfl⟩) spelled mark
  | bool =>
    obtain rfl | rfl := spelled
    · exact written ⟨.truth (wordLeaf _), rfl, rfl⟩
    · exact written ⟨.falsity (wordLeaf _), rfl, rfl⟩

theorem assign {value : Expr} (inside : Written value) (mark : Mark) (text : String) :
    Written (.assign mark text value) := by
  obtain ⟨derivation, spelled, same⟩ := inside.parenthesized
  refine ⟨.assign (nameLeaf text) (signLeaf _) derivation, by simp [Derivation.tokens, Expr.pieces, spelled], ?_⟩
  simp only [Category.remark, Derivation.meaning, Expr.remark, unmark] at same ⊢
  rw [same]
  rfl

theorem list {elements : List Expr} (all : ∀ element ∈ elements, Written element) (mark : Mark) :
    Written (.list mark elements) := by
  by_cases filled : elements = []
  · subst filled
    exact written ⟨.listEmpty (signLeaf _) (signLeaf _), rfl, rfl⟩
  · obtain ⟨derivation, spelled, same⟩ := items all filled
    refine written ⟨.list (signLeaf _) derivation (signLeaf _),
      by simp [Derivation.tokens, Expr.pieces, spelled], ?_⟩
    simp only [Category.remark, Derivation.meaning, Expr.remark, Expr.remarkAll_eq_map, unmark] at same ⊢
    rw [same]

theorem dict {entries : List (Expr × Expr)} (all : ∀ pair ∈ entries, Written pair.1 ∧ Written pair.2) (mark : Mark) :
    Written (.dict mark entries) := by
  cases entries with
  | nil => exact written ⟨.dictEmpty (signLeaf _) (signLeaf _) (signLeaf _), rfl, rfl⟩
  | cons pair entries =>
    obtain ⟨derivation, spelled, same⟩ := pairs all (List.cons_ne_nil pair entries)
    refine written ⟨.dict (signLeaf _) derivation (signLeaf _),
      by simp [Derivation.tokens, Expr.pieces, spelled], ?_⟩
    simp only [Category.remark, Derivation.meaning, Expr.remark, Expr.remarkPairs_eq_map, unmark] at same ⊢
    rw [same]

theorem subscript {target index : Expr} (container : Written target) (place : Written index) (mark : Mark) :
    Written (.subscript mark target index) := by
  obtain ⟨left, spelled, same⟩ := container.group.looser .operand (by decide) (by decide)
  obtain ⟨inner, spelled', same'⟩ := place.parenthesized
  refine loosest ⟨.subscript left (signLeaf _) inner (signLeaf _),
    by simp [Derivation.tokens, Expr.pieces, spelled, spelled'], ?_⟩ (by decide)
  simp only [Category.remark, Derivation.meaning, Expr.remark, unmark] at same same' ⊢
  rw [same, same']

theorem store {target index value : Expr} (container : Written target) (place : Written index)
    (inside : Written value) (mark : Mark) : Written (.store mark target index value) := by
  obtain ⟨left, spelled, same⟩ := container.group.looser .operand (by decide) (by decide)
  obtain ⟨inner, spelled', same'⟩ := place.parenthesized
  obtain ⟨right, spelled'', same''⟩ := inside.parenthesized
  refine ⟨.store left (signLeaf _) inner (signLeaf _) (signLeaf _) right,
    by simp [Derivation.tokens, Expr.pieces, spelled, spelled', spelled''], ?_⟩
  simp only [Category.remark, Derivation.meaning, Expr.remark, unmark] at same same' same'' ⊢
  rw [same, same', same'']

/-- The production of a joint, between categories that an operand in parentheses belongs to. -/
theorem exists_rule {joint : Joint} (matched : joint.Matched) :
    ∃ tier before kind after text, Binary tier before kind after joint ∧ Piece.joint joint = token kind text ∧
      tier.level ≤ 11 ∧ before.level ≤ 11 ∧ after.level ≤ 11 := by
  have found {tier before after : Tier} {kind : Token.Kind} {text : String} {joint : Joint}
      (rule : Binary tier before kind after joint) (spelled : Piece.joint joint = token kind text) :
      ∃ tier before kind after text, Binary tier before kind after joint ∧ Piece.joint joint = token kind text ∧
        tier.level ≤ 11 ∧ before.level ≤ 11 ∧ after.level ≤ 11 :=
    ⟨_, _, _, _, _, rule, spelled, by cases rule <;> decide⟩
  cases joint with
  | arithmetic op | comparison op => obtain rfl | rfl | rfl | rfl := matched <;> exact found (by constructor) rfl
  | logical op | equality op => obtain rfl | rfl := matched <;> exact found (by constructor) rfl
  | concat | range => exact found (by constructor) rfl

theorem join {joint : Joint} {left right : Expr} (matched : joint.Matched) (before : Written left)
    (after : Written right) (mark : Mark) : Written (.join mark joint left right) := by
  obtain ⟨tier, loose, kind, tight, text, rule, joined, le, le', le''⟩ := exists_rule matched
  obtain ⟨first, spelled, same⟩ := before.group.looser loose le' (by decide)
  obtain ⟨second, spelled', same'⟩ := after.group.looser tight le'' (by decide)
  refine loosest ⟨.join rule first ⟨⟨kind, text, .start⟩, rfl⟩ second, ?_, ?_⟩ le
  · simp [Derivation.tokens, Expr.pieces, spelled, spelled', joined, Token.spelling]
  · simp only [Category.remark, Derivation.meaning, Expr.remark, unmark] at same same' ⊢
    rw [same, same']

theorem negate {operand : Expr} (inside : Written operand) (mark : Mark) : Written (.negate mark operand) := by
  obtain ⟨derivation, spelled, same⟩ := inside.group.looser .negation (by decide) (by decide)
  refine loosest ⟨.negate (wordLeaf _) derivation, by simp [Derivation.tokens, Expr.pieces, spelled], ?_⟩ (by decide)
  simp only [Category.remark, Derivation.meaning, Expr.remark, unmark] at same ⊢
  rw [same]

theorem block {statements : List Expr} (all : ∀ statement ∈ statements, Written statement) (mark : Mark) :
    Derives (.tier .block) (Expr.pieces (.block mark statements)) (.block mark statements) := by
  obtain ⟨derivation, spelled, same⟩ := body all
  refine ⟨.block (signLeaf _) derivation (signLeaf _), by simp [Derivation.tokens, Expr.pieces, spelled], ?_⟩
  simp only [Category.remark, Derivation.meaning, Expr.remark, Expr.remarkAll_eq_map, unmark] at same ⊢
  rw [same]

theorem withElse {tier : Tier} (behind : Otherwise tier) {condition yes no : Expr} (test : Written condition)
    (first : Derives (.tier .block) yes.pieces yes) (second : Derives (.tier tier) no.pieces no) (mark : Mark) :
    Derives (.tier .conditional) (Expr.pieces (.conditional mark condition yes no))
      (.conditional mark condition yes no) := by
  obtain ⟨tested, spelled, same⟩ := test.parenthesized
  obtain ⟨chosen, spelled', same'⟩ := first
  obtain ⟨other, spelled'', same''⟩ := second
  refine ⟨.withElse behind (wordLeaf _) tested chosen (wordLeaf _) other,
    by simp [Derivation.tokens_withElse, Expr.pieces, spelled, spelled', spelled''], ?_⟩
  simp only [Category.remark, Derivation.meaning_withElse, Expr.remark, unmark] at same same' same'' ⊢
  rw [same, same', same'']

theorem loop {source inner : Expr} (among : Written source) (inside : Derives (.tier .block) inner.pieces inner)
    (mark : Mark) (item : String) : Written (.loop mark item source inner) := by
  obtain ⟨course, spelled, same⟩ := among.parenthesized
  obtain ⟨repeated, spelled', same'⟩ := inside
  refine written (pass ⟨.loop (wordLeaf _) (nameLeaf item) (wordLeaf _) course repeated,
    by simp [Derivation.tokens, Expr.pieces, spelled, spelled'], ?_⟩ .loop)
  simp only [Category.remark, Derivation.meaning, Expr.remark, unmark] at same same' ⊢
  rw [same, same']
  rfl

theorem function {inner : Expr} (inside : Derives (.tier .block) inner.pieces inner) (mark : Mark) (text : String)
    (names : List String) : Written (.function mark text names inner) := by
  obtain ⟨derivation, spelled, same⟩ := inside
  by_cases filled : names = []
  · subst filled
    refine written (pass ⟨.functionEmpty (wordLeaf _) (nameLeaf text) (signLeaf _) (signLeaf _) derivation,
      by simp [Derivation.tokens, Expr.pieces, chain, spelled], ?_⟩ .function)
    simp only [Category.remark, Derivation.meaning, Expr.remark, unmark] at same ⊢
    rw [same]
    rfl
  · obtain ⟨listed, spelled', same'⟩ := parameters filled
    refine written (pass ⟨.function (wordLeaf _) (nameLeaf text) (signLeaf _) listed (signLeaf _) derivation,
      by simp [Derivation.tokens, Expr.pieces, spelled, spelled'], ?_⟩ .function)
    simp only [Category.remark, Derivation.meaning, Expr.remark, unmark] at same same' ⊢
    rw [same, same']
    rfl

theorem call {arguments : List Expr} (all : ∀ argument ∈ arguments, Written argument) (mark : Mark) (text : String) :
    Written (.call mark text arguments) := by
  by_cases filled : arguments = []
  · subst filled
    exact written ⟨.callEmpty (nameLeaf text) (signLeaf _) (signLeaf _), rfl, rfl⟩
  · obtain ⟨derivation, spelled, same⟩ := items all filled
    refine written ⟨.call (nameLeaf text) (signLeaf _) derivation (signLeaf _),
      by simp [Derivation.tokens, Expr.pieces, spelled], ?_⟩
    simp only [Category.remark, Derivation.meaning, Expr.remark, Expr.remarkAll_eq_map, unmark] at same ⊢
    rw [same]
    rfl

theorem print {shown : Expr} (inside : Written shown) (mark : Mark) (newline : Bool) :
    Written (.print mark shown newline) := by
  obtain ⟨derivation, spelled, same⟩ := inside.parenthesized
  refine written ⟨.print newline (wordLeaf _) (signLeaf _) derivation (signLeaf _),
    by simp [Derivation.tokens, Expr.pieces, spelled, printWord], ?_⟩
  simp only [Category.remark, Derivation.meaning, Expr.remark, unmark] at same ⊢
  rw [same]

end Derives

/-- The pieces of a tree are derived, and stand for the tree. -/
theorem Expr.Expressible.derives {expr : Expr} (expressible : expr.Expressible) :
    Derives (.tier (ownTier expr)) expr.pieces expr := by
  induction expressible with
  | none mark => exact Derives.written ⟨.nothing (wordLeaf _), rfl, rfl⟩
  | literal mark spelled => exact .literal spelled mark
  | @name text mark named => exact Derives.written ⟨.identifier (nameLeaf text), rfl, rfl⟩
  | assign mark named inside ih => exact ih.of_own.assign mark _
  | list mark inside ih => exact .list (fun element member => (ih element member).of_own) mark
  | dict mark keys values ih ih' =>
    exact .dict (fun pair member => ⟨(ih pair member).of_own, (ih' pair member).of_own⟩) mark
  | subscript mark container place ih ih' => exact ih.of_own.subscript ih'.of_own mark
  | store mark container place inside ih ih' ih'' => exact ih.of_own.store ih'.of_own ih''.of_own mark
  | join mark matched before after ih ih' => exact .join matched ih.of_own ih'.of_own mark
  | negate mark inside ih => exact ih.of_own.negate mark
  | block mark inside ih => exact .block (fun statement member => (ih statement member).of_own) mark
  | conditional mark test chosen other first second ih ih' ih'' =>
    rw [ownTier_block chosen] at ih'
    obtain enclosed | chained := other
    · rw [ownTier_block enclosed] at ih''
      exact ih.of_own.withElse .block ih' ih'' mark
    · rw [ownTier_conditional chained] at ih''
      exact ih.of_own.withElse .conditional ih' ih'' mark
  | loop mark named among enclosed inside ih ih' =>
    rw [ownTier_block enclosed] at ih'
    exact ih.of_own.loop ih' mark _
  | function mark named all enclosed inside ih =>
    rw [ownTier_block enclosed] at ih
    exact ih.function mark _ _
  | call mark named inside ih => exact .call (fun argument member => (ih argument member).of_own) mark _
  | print mark inside newline ih => exact ih.of_own.print mark newline

/-! Texts -/

/-- The text of an expressible block is on one line, and it is read as that block. -/
theorem Expr.Expressible.parse_source {tree : Expr} (expressible : tree.Expressible) (enclosed : tree.IsBlock) :
    '\n' ∉ tree.source.toList ∧ ∃ read, Parser.parse tree.source = .ok read ∧ read.bare = tree.bare := by
  obtain ⟨mark, statements, rfl⟩ := enclosed
  cases expressible with
  | block _ inside =>
    have spaced : Spaced (chain [divider] (piecesAll statements)) := by
      simpa using closed_statements (fun statement member => (inside statement member).opened) [] .nil
    have text_eq : (source (.block mark statements)).toList = chars (chain [divider] (piecesAll statements)) := by
      simp [source, chars, String.toList_join, List.flatMap, Function.comp_def]
    obtain ⟨tokens, splits, spelled⟩ := spaced.reads .start
    obtain ⟨derivation, spelled', same⟩ :=
      Derives.body fun statement member => (inside statement member).derives.of_own
    obtain ⟨change, kept, changed⟩ := exists_relabeled (congrArg Prod.fst) (spelled.trans spelled'.symm)
    rw [text_eq]
    refine ⟨spaced.inLine, (derivation.relabel change 0).program, Parser.parse_eq_ok_iff.mpr ⟨_, ?_, rfl⟩, ?_⟩
    · rw [text_eq, Derivation.tokens_relabel, changed]
      exact splits
    · have unmoved := derivation.unmark_relabel (fun index old _ => congrArg Prod.snd (kept index old)) 0
      simp only [Category.remark] at same unmoved
      simp only [bare_eq_remark, Derivation.program, remark, remarkAll_eq_map, unmoved, same]
      rfl

/-- The trees that texts are read as are the expressible blocks, marks aside, and every expressible block is read from
its own text, which is on one line. -/
theorem parse_round_trip (tree : Expr) :
    ((∃ source read, Parser.parse source = .ok read ∧ read.bare = tree.bare) ↔ tree.IsBlock ∧ tree.Expressible) ∧
      (tree.IsBlock ∧ tree.Expressible →
        '\n' ∉ tree.source.toList ∧ ∃ read, Parser.parse tree.source = .ok read ∧ read.bare = tree.bare) := by
  refine ⟨⟨?_, fun ⟨enclosed, expressible⟩ => ?_⟩, fun ⟨enclosed, expressible⟩ => expressible.parse_source enclosed⟩
  · rintro ⟨source, read, parsed, same⟩
    rw [Expr.bare_eq_remark, Expr.bare_eq_remark] at same
    obtain ⟨enclosed, expressible⟩ := Parser.parse_expressible parsed
    exact ⟨enclosed.of_remark_eq same.symm, expressible.of_remark_eq same.symm⟩
  · exact ⟨tree.source, (expressible.parse_source enclosed).2⟩

/-- A minus sign before a number, two points after one, and a quote inside a string. -/
theorem parse_round_trip_signs :
    let range := Expr.join .absent .range (.literal .absent .int "-1") (.literal .absent .float "2.5")
    let tree := Expr.block .absent [.assign .absent "x" range, .literal .absent .string "\"\\\"\""]
    (tree.IsBlock ∧ tree.Expressible) ∧ tree.source = "(x = ((-1) .. (2.5))); (\"\\\"\")" ∧
      ∃ read, Parser.parse tree.source = .ok read ∧ read.bare = tree := by
  intro range tree
  have digit (c : Char) (known : Token.isDigit c = true) : Token.Digits [c] :=
    ⟨List.cons_ne_nil _ _, List.forall_mem_singleton.mpr known⟩
  have one : Token.Lexeme .int ['1'] := .int (digit '1' rfl)
  have decimal : Token.Lexeme .float ['2', '.', '5'] := .float (digit '2' rfl) (digit '5' rfl) .absent
  have string : Token.Lexeme .string ['"', '\\', '"', '"'] := .string (.escape (by decide) .close)
  have free (word : Keyword) : word.text.toList ≠ ['x'] := by cases word <;> decide
  have named : Token.Lexeme .name ['x'] := .name rfl (fun _ member => nomatch member) free
  have bounds : range.Expressible :=
    .join _ trivial (.literal _ ⟨"1", one, .inr rfl⟩) (.literal _ ⟨"2.5", decimal, .inl rfl⟩)
  have expressible : tree.Expressible :=
    .block _ (List.forall_mem_cons.mpr ⟨.assign _ named bounds, List.forall_mem_singleton.mpr (.literal _ string)⟩)
  have enclosed : tree.IsBlock := ⟨_, _, rfl⟩
  exact ⟨⟨enclosed, expressible⟩, rfl, ((parse_round_trip tree).2 ⟨enclosed, expressible⟩).2⟩

end Corvid
