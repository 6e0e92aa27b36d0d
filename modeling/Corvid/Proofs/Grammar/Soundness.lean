import Corvid.Proofs.Grammar.Completeness
import Corvid.Proofs.Grammar.Steps

/-!
What is read is derived. A state that has been reached by reading tokens accounts for every one of them: each
unclosed construct for the tokens from its first one to the next construct, each waiting operator for its left
operand and its sign, and the mode for what has been begun. `Reached` says so, and one step of reading keeps it.
-/
namespace Corvid.Grammar
open Parser

/-! Unfinished constructs and the tokens that they account for -/

/-- The place of the first token, or a given one where there is none. -/
def firstPosition (tokens : List Token) (otherwise : Position) : Position :=
  match tokens with
  | [] => otherwise
  | token :: _ => token.position

/-- Branches, each with the `else` after it. -/
inductive Chained : List Branch → List Token → Prop where
  | nil : Chained [] []
  | more {outer : List Branch} {tokens : List Token} (before : Chained outer tokens) (word : Word .kwIf)
      (condition : Derivation (.tier .expression)) (yes : Derivation (.tier .block)) (otherwise : Word .kwElse) :
      Chained (⟨word.token.position, condition.expr, yes.expr⟩ :: outer)
        (tokens ++ word.token :: (condition.tokens ++ yes.tokens ++ [otherwise.token]))

/-- A function up to its closing parenthesis. -/
inductive Header : Position → String → List String → List Token → Prop where
  | empty (word : Word .kwFn) (name : Leaf .name) (opening : Sign .openParen) (closing : Sign .closeParen) :
      Header word.token.position name.token.text []
        [word.token, name.token, opening.token, closing.token]
  | filled (word : Word .kwFn) (name : Leaf .name) (opening : Sign .openParen)
      (parameters : Derivation .parameters) (closing : Sign .closeParen) :
      Header word.token.position name.token.text parameters.meaning
        (word.token :: name.token :: opening.token :: (parameters.tokens ++ [closing.token]))

/-- What stands before the brace of a block. -/
inductive Purposed : Purpose → List Token → Prop where
  | plain : Purposed .plain []
  | branch {outer : List Branch} {tokens : List Token} (before : Chained outer tokens) (word : Word .kwIf)
      (condition : Derivation (.tier .expression)) :
      Purposed (.branch (firstPosition tokens word.token.position) word.token.position condition.expr outer)
        (tokens ++ word.token :: condition.tokens)
  | lastResort {branches : List Branch} {first : Token} {rest : List Token}
      (before : Chained branches (first :: rest)) : Purposed (.lastResort first.position branches) (first :: rest)
  | loop (word : Word .kwFor) (item : Leaf .name) (among : Word .kwIn)
      (source : Derivation (.tier .expression)) :
      Purposed (.loop word.token.position item.token.text source.expr)
        (word.token :: item.token :: among.token :: source.tokens)
  | function {start : Position} {name : String} {parameters : List String} {tokens : List Token}
      (header : Header start name parameters tokens) : Purposed (.function start name parameters) tokens

/-- Expressions in reverse order, each with the token after it. -/
inductive Series (kind : Token.Kind) : List Expr → List Token → Prop where
  | nil : Series kind [] []
  | more {done : List Expr} {tokens : List Token} (before : Series kind done tokens)
      (last : Derivation (.tier .expression)) (divider : Leaf kind) :
      Series kind (last.expr :: done) (tokens ++ (last.tokens ++ [divider.token]))

/-- Pairs in reverse order, each with the comma after it. -/
inductive PairSeries : List (Expr × Expr) → List Token → Prop where
  | nil : PairSeries [] []
  | more {done : List (Expr × Expr)} {tokens : List Token} (before : PairSeries done tokens)
      (key : Derivation (.tier .expression)) (colon : Sign .colon) (value : Derivation (.tier .expression))
      (comma : Sign .comma) :
      PairSeries ((key.expr, value.expr) :: done)
        (tokens ++ (key.tokens ++ colon.token :: (value.tokens ++ [comma.token])))

/-- A construct with what it has collected. -/
inductive Opened : Context → List Token → Prop where
  | program {done : List Expr} {tokens : List Token} (lead : Option Separator)
      (series : Series .separator done tokens) : Opened (.program done) (optional lead ++ tokens)
  | block {purpose : Purpose} {before : List Token} {done : List Expr} {tokens : List Token}
      (purposed : Purposed purpose before) (opening : Sign .openBrace) (lead : Option Separator)
      (series : Series .separator done tokens) :
      Opened (.block opening.token.position purpose done)
        (before ++ opening.token :: (optional lead ++ tokens))
  | group (opening : Sign .openParen) : Opened (.group opening.token.position) [opening.token]
  | subscript (target : Derivation (.tier .operand)) (opening : Sign .openBracket) :
      Opened (.subscript target.phrase) (target.tokens ++ [opening.token])
  | bracket (opening : Sign .openBracket) : Opened (.bracket opening.token.position) [opening.token]
  | list {done : List Expr} {tokens : List Token} (opening : Sign .openBracket)
      (series : Series (.symbol .comma) done tokens) :
      Opened (.list opening.token.position done) (opening.token :: tokens)
  | key {done : List (Expr × Expr)} {tokens : List Token} (opening : Sign .openBracket)
      (series : PairSeries done tokens) : Opened (.key opening.token.position done) (opening.token :: tokens)
  | entry {done : List (Expr × Expr)} {tokens : List Token} (opening : Sign .openBracket)
      (series : PairSeries done tokens) (key : Derivation (.tier .expression)) (colon : Sign .colon) :
      Opened (.entry opening.token.position done key.expr)
        (opening.token :: (tokens ++ (key.tokens ++ [colon.token])))
  | arguments {done : List Expr} {tokens : List Token} (name : Leaf .name) (opening : Sign .openParen)
      (series : Series (.symbol .comma) done tokens) :
      Opened (.arguments name.token.position name.token.text done) (name.token :: opening.token :: tokens)
  | print (newline : Bool) (word : Word (printWord newline)) (opening : Sign .openParen) :
      Opened (.print word.token.position newline) [word.token, opening.token]
  | condition {outer : List Branch} {tokens : List Token} (before : Chained outer tokens) (word : Word .kwIf) :
      Opened (.condition (firstPosition tokens word.token.position) word.token.position outer)
        (tokens ++ [word.token])
  | source (word : Word .kwFor) (item : Leaf .name) (among : Word .kwIn) :
      Opened (.source word.token.position item.token.text) [word.token, item.token, among.token]

/-- A construct in which nothing has been read. -/
inductive Fresh : Context → List Token → Prop where
  | program : Fresh (.program []) []
  | block {purpose : Purpose} {before : List Token} (purposed : Purposed purpose before)
      (opening : Sign .openBrace) :
      Fresh (.block opening.token.position purpose []) (before ++ [opening.token])
  | bracket (opening : Sign .openBracket) : Fresh (.bracket opening.token.position) [opening.token]
  | arguments (name : Leaf .name) (opening : Sign .openParen) :
      Fresh (.arguments name.token.position name.token.text []) [name.token, opening.token]
  | print (newline : Bool) (word : Word (printWord newline)) (opening : Sign .openParen) :
      Fresh (.print word.token.position newline) [word.token, opening.token]

/-- Operators with their left operands, the tightest first. Each binds tighter than the next, but assignment
and negation may follow themselves. -/
inductive Waits : List Waiting → List Token → Prop where
  | nil : Waits [] []
  | assign {waiting : List Waiting} {tokens : List Token} (before : Waits waiting tokens)
      (fits : looserThan 0 waiting = true) (name : Leaf .name) (sign : Sign .assign) :
      Waits (.assign name.token.position name.token.text :: waiting) (tokens ++ [name.token, sign.token])
  | store {waiting : List Waiting} {tokens : List Token} (before : Waits waiting tokens)
      (fits : looserThan 0 waiting = true) (target : Derivation (.tier .operand)) (opening : Sign .openBracket)
      (index : Derivation (.tier .expression)) (closing : Sign .closeBracket) (sign : Sign .assign) :
      Waits (.store target.start target.expr index.expr :: waiting)
        (tokens ++ (target.tokens ++ opening.token :: (index.tokens ++ [closing.token, sign.token])))
  | negate {waiting : List Waiting} {tokens : List Token} (before : Waits waiting tokens)
      (fits : looserThan 3 waiting = true) (word : Word .kwNot) :
      Waits (.negate word.token.position :: waiting) (tokens ++ [word.token])
  | join {waiting : List Waiting} {tokens : List Token} {tier left right : Tier} {kind : Token.Kind}
      {joint : Joint} (before : Waits waiting tokens) (rule : Binary tier left kind right joint)
      (fits : looserThan tier.bound waiting = true) (operand : Derivation (.tier left)) (sign : Leaf kind) :
      Waits (.join operand.start joint operand.expr :: waiting)
        (tokens ++ (operand.tokens ++ [sign.token]))

/-- A finished operand, and what its ending says about it. -/
inductive Finished : Operand → List Token → Prop where
  | closed (derivation : Derivation (.tier .operand)) : Finished ⟨derivation.phrase, .closed⟩ derivation.tokens
  | signed (derivation : Derivation (.tier .unary)) : Finished ⟨derivation.phrase, .signed⟩ derivation.tokens
  | name (leaf : Leaf .name) :
      Finished ⟨⟨.name leaf.token.mark leaf.token.text, leaf.token.position⟩, .name leaf.token.text⟩ [leaf.token]
  | subscript (target : Derivation (.tier .operand)) (opening : Sign .openBracket)
      (index : Derivation (.tier .expression)) (closing : Sign .closeBracket) :
      Finished ⟨⟨.subscript target.mark target.expr index.expr, target.start⟩,
        .subscript target.expr index.expr⟩ (target.tokens ++ opening.token :: (index.tokens ++ [closing.token]))
  | branches {outer : List Branch} {tokens : List Token} (before : Chained outer tokens) (word : Word .kwIf)
      (condition : Derivation (.tier .expression)) (yes : Derivation (.tier .block)) :
      Finished ⟨⟨chain (⟨word.token.position, condition.expr, yes.expr⟩ :: outer) (.block .absent []),
          firstPosition tokens word.token.position⟩,
        .branches (⟨word.token.position, condition.expr, yes.expr⟩ :: outer)⟩
        (tokens ++ word.token :: (condition.tokens ++ yes.tokens))

/-- What has been begun after the last waiting operator. -/
inductive Begun : Mode → List Token → Prop where
  | operand : Begun .operand []
  | operator {operand : Operand} {tokens : List Token} (finished : Finished operand tokens) :
      Begun (.operator operand) tokens
  | number (sign : Sign .minus) : Begun (.number sign.token.position) [sign.token]
  | printParen (newline : Bool) (word : Word (printWord newline)) :
      Begun (.printParen word.token.position newline) [word.token]
  | lastResort {branches : List Branch} {first : Token} {rest : List Token}
      (before : Chained branches (first :: rest)) : Begun (.lastResort first.position branches) (first :: rest)
  | loopItem (word : Word .kwFor) : Begun (.loopItem word.token.position) [word.token]
  | loopIn (word : Word .kwFor) (item : Leaf .name) :
      Begun (.loopIn word.token.position item.token.text) [word.token, item.token]
  | functionName (word : Word .kwFn) : Begun (.functionName word.token.position) [word.token]
  | functionParen (word : Word .kwFn) (name : Leaf .name) :
      Begun (.functionParen word.token.position name.token.text) [word.token, name.token]
  | firstParameter (word : Word .kwFn) (name : Leaf .name) (opening : Sign .openParen) :
      Begun (.firstParameter word.token.position name.token.text) [word.token, name.token, opening.token]
  | parameter (word : Word .kwFn) (name : Leaf .name) (opening : Sign .openParen)
      (parameters : Derivation .parameters) (comma : Sign .comma) :
      Begun (.parameter word.token.position name.token.text parameters.meaning.reverse)
        (word.token :: name.token :: opening.token :: (parameters.tokens ++ [comma.token]))
  | parameterEnd (word : Word .kwFn) (name : Leaf .name) (opening : Sign .openParen)
      (parameters : Derivation .parameters) :
      Begun (.parameterEnd word.token.position name.token.text parameters.meaning.reverse)
        (word.token :: name.token :: opening.token :: parameters.tokens)
  | functionBody {start : Position} {name : String} {parameters : List String} {tokens : List Token}
      (header : Header start name parameters tokens) : Begun (.functionBody start name parameters) tokens

/-- The innermost construct. -/
inductive Inside : Mode → Layer → List Token → Prop where
  | opening {context : Context} {tokens : List Token} (fresh : Fresh context tokens) :
      Inside .opening ⟨context, []⟩ tokens
  | resumed {context : Context} {tokens : List Token} (opened : Opened context tokens) :
      Inside .resumed ⟨context, []⟩ tokens
  | emptyDict (opening : Sign .openBracket) (colon : Sign .colon) :
      Inside (.emptyDict opening.token.position) ⟨.bracket opening.token.position, []⟩
        [opening.token, colon.token]
  | begun {mode : Mode} {context : Context} {waiting : List Waiting} {tokens more last : List Token}
      (opened : Opened context tokens) (waits : Waits waiting more) (begun : Begun mode last) :
      Inside mode ⟨context, waiting⟩ (tokens ++ (more ++ last))

/-- The constructs around the innermost one. -/
inductive Stacked : List Layer → List Token → Prop where
  | nil : Stacked [] []
  | cons {outer : List Layer} {context : Context} {waiting : List Waiting} {before tokens more : List Token}
      (stacked : Stacked outer before) (opened : Opened context tokens) (waits : Waits waiting more) :
      Stacked (⟨context, waiting⟩ :: outer) (before ++ (tokens ++ more))

/-- The state accounts for these tokens. -/
def Reached (state : State) (tokens : List Token) : Prop :=
  ∃ before now, tokens = before ++ now ∧ Stacked state.outer before ∧ Inside state.mode state.layer now

/-! Finishing what is unfinished -/

namespace Tier

/-- The category of each level, as far as each passes the next one on. -/
def ofLevel : Nat → Tier
  | 0 => .expression
  | 1 => .disjunction
  | 2 => .conjunction
  | 3 => .negation
  | 4 => .comparison
  | 5 => .concatenation
  | 6 => .range
  | 7 => .sum
  | 8 => .product
  | 9 => .unary
  | 10 => .operand
  | _ => .atom

theorem ofLevel_level {tier : Tier} (le : tier.level ≤ 11) : ofLevel tier.level = tier := by
  cases tier <;> first | rfl | exact absurd le (by decide)

theorem exists_passes {tier : Tier} (positive : tier.level ≠ 0) (le : tier.level ≤ 11) :
    ∃ looser, Passes looser tier ∧ looser.level + 1 = tier.level := by
  cases tier with
  | expression => exact absurd rfl positive
  | block | conditional | loop | function => exact absurd le (by decide)
  | _ => exact ⟨_, by constructor, rfl⟩

end Tier

namespace Derivation

/-- A derivation of a category is one of every looser category. -/
theorem exists_looser {tier : Tier} (derivation : Derivation (.tier tier)) (target : Tier)
    (le : target.level ≤ tier.level) (linear : tier.level ≤ 11) :
    ∃ same : Derivation (.tier target), same.tokens = derivation.tokens ∧ same.phrase = derivation.phrase := by
  obtain ⟨more, levelEq⟩ := Nat.exists_eq_add_of_le le
  induction more generalizing tier with
  | zero =>
    have same : tier = target := by
      rw [← Tier.ofLevel_level linear, ← Tier.ofLevel_level (Nat.le_trans le linear), levelEq]
      rfl
    subst same
    exact ⟨derivation, rfl, rfl⟩
  | succ more ih =>
    obtain ⟨looser, rule, looserEq⟩ := Tier.exists_passes (by omega) linear
    exact ih (pass rule derivation) (by omega) (by omega) (by omega)

end Derivation

/-- Settling waiting operators gives a derivation of the tokens of those that were completed. What still waits
binds looser than the level, and the derivation is at least as tight as the level where the operand was. -/
theorem Waits.settle {waiting : List Waiting} {tokens : List Token} (waits : Waits waiting tokens) {tier : Tier}
    (derivation : Derivation (.tier tier)) (linear : tier.level ≤ 9)
    (fits : looserThan tier.bound waiting = true) (level : Nat) :
    ∃ rest before, ∃ tier', ∃ whole : Derivation (.tier tier'),
      Parser.settle level waiting derivation.phrase = (rest, whole.phrase) ∧ Waits rest before ∧
      before ++ whole.tokens = tokens ++ derivation.tokens ∧ tier'.level ≤ 9 ∧
      (level ≤ tier.level → level ≤ tier'.level) ∧
      ∀ operator others, rest = operator :: others → operator.level < level := by
  induction waits generalizing tier with
  | nil => exact ⟨[], [], tier, derivation, rfl, .nil, rfl, linear, id, by simp⟩
  | @assign waiting tokens before looser name sign ih =>
    by_cases settles : level ≤ 0
    · obtain ⟨value, sameTokens, samePhrase⟩ :=
        derivation.exists_looser .expression (Nat.zero_le _) (by omega)
      obtain ⟨rest, earlier, tier', whole, settled, waits, all, linear', _, stops⟩ :=
        ih (.assign name sign value) (by decide) looser
      refine ⟨rest, earlier, tier', whole, ?_, waits, ?_, linear', fun _ => by omega, stops⟩
      · rw [settle_cons _ _ (by exact settles), ← settled, ← samePhrase]
        rfl
      · rw [all, ← sameTokens]
        simp [Derivation.tokens]
    · exact ⟨_, _, tier, derivation, by simp [Parser.settle, Waiting.level, settles],
        .assign before looser name sign, rfl, linear, id,
        fun _ _ same => by cases same; exact Nat.lt_of_not_le settles⟩
  | @store waiting tokens before looser target opening index closing sign ih =>
    by_cases settles : level ≤ 0
    · obtain ⟨value, sameTokens, samePhrase⟩ :=
        derivation.exists_looser .expression (Nat.zero_le _) (by omega)
      obtain ⟨rest, earlier, tier', whole, settled, waits, all, linear', _, stops⟩ :=
        ih (.store target opening index closing sign value) (by decide) looser
      refine ⟨rest, earlier, tier', whole, ?_, waits, ?_, linear', fun _ => by omega, stops⟩
      · rw [settle_cons _ _ (by exact settles), ← settled, ← samePhrase]
        simp [Waiting.complete, Derivation.phrase, Derivation.expr, Derivation.meaning, Derivation.mark]
      · rw [all, ← sameTokens]
        simp [Derivation.tokens]
    · exact ⟨_, _, tier, derivation, by simp [Parser.settle, Waiting.level, settles],
        .store before looser target opening index closing sign, rfl, linear, id,
        fun _ _ same => by cases same; exact Nat.lt_of_not_le settles⟩
  | @negate waiting tokens before looser word ih =>
    by_cases settles : level ≤ 3
    · have tight : Tier.negation.level ≤ tier.level := by
        have bound : 3 ≤ tier.bound := of_decide_eq_true fits
        revert bound
        cases tier <;> decide
      obtain ⟨operand, sameTokens, samePhrase⟩ := derivation.exists_looser .negation tight (by omega)
      obtain ⟨rest, earlier, tier', whole, settled, waits, all, linear', keeps, stops⟩ :=
        ih (.negate word operand) (by decide) looser
      refine ⟨rest, earlier, tier', whole, ?_, waits, ?_, linear', fun _ => keeps settles, stops⟩
      · rw [settle_cons _ _ (by exact settles), ← settled, ← samePhrase]
        rfl
      · rw [all, ← sameTokens]
        simp [Derivation.tokens]
    · exact ⟨_, _, tier, derivation, by simp [Parser.settle, Waiting.level, settles],
        .negate before looser word, rfl, linear, id,
        fun _ _ same => by cases same; exact Nat.lt_of_not_le settles⟩
  | @join waiting tokens outer left right kind joint before rule looser operand sign ih =>
    by_cases settles : level ≤ joint.level
    · have tight : right.level ≤ tier.level := by
        have bound : joint.level ≤ tier.bound := of_decide_eq_true fits
        revert bound linear
        cases rule <;> cases tier <;> decide
      obtain ⟨value, sameTokens, samePhrase⟩ := derivation.exists_looser right tight (by omega)
      obtain ⟨rest, earlier, tier', whole, settled, waits, all, linear', keeps, stops⟩ :=
        ih (.join rule operand sign value) rule.tier_le looser
      refine ⟨rest, earlier, tier', whole, ?_, waits, ?_, linear',
        fun _ => keeps (rule.level_eq ▸ settles), stops⟩
      · rw [settle_cons _ _ (by exact settles), ← settled, ← samePhrase]
        simp [Waiting.complete, Derivation.phrase, Derivation.expr, Derivation.meaning, Derivation.mark]
      · rw [all, ← sameTokens]
        simp [Derivation.tokens]
    · exact ⟨_, _, tier, derivation, by simp [Parser.settle, Waiting.level, settles],
        .join before rule looser operand sign, rfl, linear, id,
        fun _ _ same => by cases same; exact Nat.lt_of_not_le settles⟩

/-- A chain of conditions that ends in a conditional. -/
theorem Chained.close {branches : List Branch} {tokens : List Token} (chained : Chained branches tokens)
    (last : Derivation (.tier .conditional)) :
    ∃ whole : Derivation (.tier .conditional), whole.tokens = tokens ++ last.tokens ∧
      whole.expr = chain branches last.expr := by
  induction chained generalizing last with
  | nil => exact ⟨last, rfl, rfl⟩
  | more before word condition yes otherwise ih =>
    obtain ⟨whole, tokens, expr⟩ := ih (.ifChain word condition yes otherwise last)
    exact ⟨whole, by simp [tokens, Derivation.tokens], expr⟩

/-- A chain of conditions that ends in a block. -/
theorem Chained.close_block {branches : List Branch} {first : Token} {rest : List Token}
    (chained : Chained branches (first :: rest)) (last : Derivation (.tier .block)) :
    ∃ whole : Derivation (.tier .conditional), whole.tokens = first :: rest ++ last.tokens ∧
      whole.expr = chain branches last.expr := by
  generalize same : first :: rest = tokens at chained
  cases chained with
  | nil => cases same
  | more before word condition yes otherwise =>
    obtain ⟨whole, tokens, expr⟩ := before.close (.ifElse word condition yes otherwise last)
    exact ⟨whole, by simp [tokens, Derivation.tokens], expr⟩

theorem start_eq_firstPosition {outer inner : Category} {whole : Derivation outer} {last : Derivation inner}
    {before : List Token} (tokens : whole.tokens = before ++ last.tokens) :
    whole.start = firstPosition before last.start := by
  simp only [Derivation.start, tokens]
  cases before <;> rfl

theorem Finished.unsigned {operand : Operand} {tokens : List Token} (finished : Finished operand tokens)
    (unsigned : operand.ending ≠ .signed) :
    ∃ whole : Derivation (.tier .operand), whole.tokens = tokens ∧ whole.phrase = operand.toPhrase := by
  cases finished with
  | closed derivation => exact ⟨derivation, rfl, rfl⟩
  | signed derivation => exact absurd rfl unsigned
  | name leaf => exact ⟨.pass .atom (.identifier leaf), rfl, rfl⟩
  | subscript target opening index closing =>
    refine ⟨.subscript target opening index closing, rfl, ?_⟩
    simp [Derivation.phrase, Derivation.expr, Derivation.meaning]
  | @branches outer tokens before word condition yes =>
    obtain ⟨whole, tokens, expr⟩ := before.close (.ifOnly word condition yes)
    refine ⟨.pass .atom (.pass .conditional whole), tokens, ?_⟩
    have start := start_eq_firstPosition tokens
    simp only [Derivation.phrase, Phrase.mk.injEq]
    exact ⟨expr, start⟩

theorem Finished.unary {operand : Operand} {tokens : List Token} (finished : Finished operand tokens) :
    ∃ whole : Derivation (.tier .unary), whole.tokens = tokens ∧ whole.phrase = operand.toPhrase := by
  by_cases signed : operand.ending = .signed
  · cases finished with
    | signed derivation => exact ⟨derivation, rfl, rfl⟩
    | closed | name | subscript | branches => cases signed
  · obtain ⟨whole, tokens, phrase⟩ := finished.unsigned signed
    exact ⟨.pass .operand whole, tokens, phrase⟩

/-- Everything that waits, settled, is one expression. -/
theorem Waits.settled {waiting : List Waiting} {operand : Operand} {more last : List Token}
    (waits : Waits waiting more) (finished : Finished operand last) :
    ∃ whole : Derivation (.tier .expression), whole.tokens = more ++ last ∧
      (Parser.settle 0 waiting operand.toPhrase).2 = whole.phrase := by
  obtain ⟨derivation, tokens, phrase⟩ := finished.unary
  obtain ⟨rest, before, tier, whole, settled, waits, all, linear, _, stops⟩ :=
    waits.settle derivation (by decide) (looserThan_eight _) 0
  obtain ⟨same, sameTokens, samePhrase⟩ := whole.exists_looser .expression (Nat.zero_le _) (by omega)
  have empty : before = [] := by
    cases waits with
    | nil => rfl
    | assign | store | negate | join => exact absurd (stops _ _ rfl) (Nat.not_lt_zero _)
  refine ⟨same, ?_, ?_⟩
  · rw [sameTokens, ← tokens, ← all, empty]
    rfl
  · rw [← phrase, settled, samePhrase]

theorem Series.items {done : List Expr} {tokens : List Token} (series : Series (.symbol .comma) done tokens)
    (last : Derivation (.tier .expression)) :
    ∃ all : Derivation .items, all.tokens = tokens ++ last.tokens ∧ all.meaning = (last.expr :: done).reverse := by
  induction series generalizing last with
  | nil => exact ⟨.oneItem last, rfl, rfl⟩
  | more before previous divider ih =>
    obtain ⟨front, tokens, meaning⟩ := ih previous
    refine ⟨.moreItems front divider last, by simp [Derivation.tokens, tokens], ?_⟩
    simp [Derivation.meaning, meaning, Derivation.expr]

theorem Series.statements {done : List Expr} {tokens : List Token} (series : Series .separator done tokens)
    (last : Derivation (.tier .expression)) :
    ∃ all : Derivation .statements, all.tokens = tokens ++ last.tokens ∧
      all.meaning = (last.expr :: done).reverse := by
  induction series generalizing last with
  | nil => exact ⟨.oneStatement last, rfl, rfl⟩
  | more before previous divider ih =>
    obtain ⟨front, tokens, meaning⟩ := ih previous
    refine ⟨.moreStatements front divider last, by simp [Derivation.tokens, tokens], ?_⟩
    simp [Derivation.meaning, meaning, Derivation.expr]

/-- A body that ends after a separator, or before anything was read. -/
theorem Series.body {done : List Expr} {tokens : List Token} (series : Series .separator done tokens)
    (lead : Option Separator) :
    ∃ body : Derivation .body, body.tokens = optional lead ++ tokens ∧ body.meaning = done.reverse := by
  cases series with
  | nil => exact ⟨.empty lead, by simp [Derivation.tokens], rfl⟩
  | more before last divider =>
    obtain ⟨all, tokens, meaning⟩ := before.statements last
    exact ⟨.filled lead all (some divider), by simp [Derivation.tokens, tokens, optional], meaning⟩

/-- A body that ends after a statement. -/
theorem Series.body_last {done : List Expr} {tokens : List Token} (series : Series .separator done tokens)
    (lead : Option Separator) (last : Derivation (.tier .expression)) :
    ∃ body : Derivation .body, body.tokens = optional lead ++ (tokens ++ last.tokens) ∧
      body.meaning = (last.expr :: done).reverse := by
  obtain ⟨all, tokens, meaning⟩ := series.statements last
  exact ⟨.filled lead all none, by simp [Derivation.tokens, tokens, optional], meaning⟩

theorem PairSeries.pairs {done : List (Expr × Expr)} {tokens : List Token} (series : PairSeries done tokens)
    (key : Derivation (.tier .expression)) (colon : Sign .colon) (value : Derivation (.tier .expression)) :
    ∃ all : Derivation .pairs, all.tokens = tokens ++ (key.tokens ++ colon.token :: value.tokens) ∧
      all.meaning = ((key.expr, value.expr) :: done).reverse := by
  induction series generalizing key colon value with
  | nil => exact ⟨.onePair key colon value, rfl, rfl⟩
  | more before key' colon' value' comma ih =>
    obtain ⟨front, tokens, meaning⟩ := ih key' colon' value'
    refine ⟨.morePairs front comma key colon value, by simp [Derivation.tokens, tokens], ?_⟩
    simp [Derivation.meaning, meaning, Derivation.expr]

/-- A block with what stands before it is a finished operand. -/
theorem Purposed.finish {purpose : Purpose} {tokens : List Token} (purposed : Purposed purpose tokens)
    (block : Derivation (.tier .block)) :
    Finished (closedBlock block.expr block.start purpose) (tokens ++ block.tokens) := by
  cases purposed with
  | plain => exact Finished.closed (.pass .atom (.pass .block block))
  | branch before word condition =>
    simpa [closedBlock] using Finished.branches before word condition block
  | @lastResort branches first rest before =>
    obtain ⟨whole, tokens, expr⟩ := before.close_block block
    have finished := Finished.closed (.pass .atom (.pass .conditional whole))
    simp only [Derivation.phrase, Derivation.start, Derivation.tokens, tokens, List.cons_append] at finished
    rwa [show (Derivation.pass .atom (.pass .conditional whole)).expr = _ from expr] at finished
  | loop word item among source =>
    exact Finished.closed (.pass .atom (.pass .loop (.loop word item among source block)))
  | function header =>
    cases header with
    | empty word name opening closing =>
      exact Finished.closed (.pass .atom (.pass .function (.functionEmpty word name opening closing block)))
    | filled word name opening parameters closing =>
      have finished := Finished.closed (.pass .atom (.pass .function
        (.function word name opening parameters closing block)))
      simpa [Derivation.tokens, closedBlock, Derivation.phrase, Derivation.expr, Derivation.meaning,
        Derivation.start, Token.mark] using finished

/-! One step of reading -/

section Steps

variable {state next : State} {token : Token} {before tokens more last : List Token}

theorem reached_of_begun (stacked : Stacked state.outer before) (opened : Opened state.layer.context tokens)
    (waits : Waits state.layer.waiting more) (begun : Begun state.mode last) :
    Reached state (before ++ (tokens ++ (more ++ last))) :=
  ⟨before, _, rfl, stacked, .begun opened waits begun⟩

theorem reached_push {context : Context} {mode : Mode} (stacked : Stacked state.outer before)
    (opened : Opened state.layer.context tokens) (waits : Waits state.layer.waiting more)
    (inside : Inside mode ⟨context, []⟩ last) :
    Reached (state.push context mode) (before ++ (tokens ++ (more ++ last))) :=
  ⟨before ++ (tokens ++ more), last, by simp, .cons stacked opened waits, inside⟩

theorem reached_pop {expr : Expr} {start : Position} {ending : Ending} (stacked : Stacked state.outer before)
    (finished : Finished ⟨⟨expr, start⟩, ending⟩ last) (pops : state.pop expr start ending = some next) :
    Reached next (before ++ last) := by
  obtain ⟨mode, layer, outer⟩ := state
  cases stacked with
  | nil => cases pops
  | @cons outer context waiting before tokens more stacked opened waits =>
    cases pops
    exact ⟨before, tokens ++ (more ++ last), by simp, stacked, .begun opened waits (.operator finished)⟩

/-- A construct that is closed as an atom. -/
theorem reached_of_atom (stacked : Stacked state.outer before) (atom : Derivation (.tier .atom))
    (pops : state.pop atom.expr atom.start .closed = some next) : Reached next (before ++ atom.tokens) :=
  reached_pop stacked (Finished.closed (.pass .atom atom)) pops

theorem Inside.ready {mode : Mode} {layer : Layer} {now : List Token} (inside : Inside mode layer now)
    (ready : Ready mode) : ∃ tokens more, now = tokens ++ more ∧ Opened layer.context tokens ∧
      Waits layer.waiting more := by
  cases inside with
  | opening fresh =>
    refine ⟨_, [], (List.append_nil _).symm, ?_, .nil⟩
    cases fresh with
    | program => exact Opened.program none .nil
    | block purposed opening => exact Opened.block purposed opening none .nil
    | bracket opening => exact .bracket opening
    | arguments name opening => exact .arguments name opening .nil
    | print newline word opening => exact .print newline word opening
  | resumed opened => exact ⟨_, [], (List.append_nil _).symm, opened, .nil⟩
  | emptyDict => rcases ready with mode | mode | mode <;> cases mode
  | @begun mode context waiting tokens more last opened waits begun =>
    rcases ready with rfl | rfl | rfl <;> cases begun
    exact ⟨tokens, more, by simp, opened, waits⟩

theorem beginOperand_reached (stacked : Stacked state.outer before) (opened : Opened state.layer.context tokens)
    (waits : Waits state.layer.waiting more) (begins : state.beginOperand token = some next) :
    Reached next (before ++ (tokens ++ (more ++ [token]))) := by
  have given : ∀ atom : Derivation (.tier .atom), atom.tokens = [token] →
      Reached (state.give atom.expr token.position .closed) (before ++ (tokens ++ (more ++ [token]))) := by
    intro atom sameTokens
    have finished := Finished.closed (.pass .atom atom)
    have start : (Derivation.pass .atom atom).start = token.position := by
      simp [Derivation.start, Derivation.tokens, sameTokens]
    rw [Derivation.phrase, start, Derivation.tokens, sameTokens] at finished
    exact reached_of_begun stacked opened waits (.operator finished)
  cases beginOperand_cases begins with
  | int kind => exact given (.int ⟨token, kind⟩) rfl
  | float kind => exact given (.float ⟨token, kind⟩) rfl
  | string kind => exact given (.string ⟨token, kind⟩) rfl
  | name kind => exact reached_of_begun stacked opened waits (.operator (.name ⟨token, kind⟩))
  | truth kind => exact given (.truth ⟨token, kind⟩) rfl
  | falsity kind => exact given (.falsity ⟨token, kind⟩) rfl
  | nothing kind => exact given (.nothing ⟨token, kind⟩) rfl
  | print kind => exact reached_of_begun stacked opened waits (.printParen false ⟨token, kind⟩)
  | println kind => exact reached_of_begun stacked opened waits (.printParen true ⟨token, kind⟩)
  | conditional kind =>
    exact reached_push stacked opened waits (.begun (.condition .nil ⟨token, kind⟩) .nil .operand)
  | loop kind => exact reached_of_begun stacked opened waits (.loopItem ⟨token, kind⟩)
  | function kind => exact reached_of_begun stacked opened waits (.functionName ⟨token, kind⟩)
  | negate kind looser =>
    have reached : Reached (state.wait (.negate token.position)) _ :=
      reached_of_begun stacked opened (.negate waits looser ⟨token, kind⟩) .operand
    simpa using reached
  | minus kind => exact reached_of_begun stacked opened waits (.number ⟨token, kind⟩)
  | group kind => exact reached_push stacked opened waits (.begun (.group ⟨token, kind⟩) .nil .operand)
  | bracket kind => exact reached_push stacked opened waits (.opening (.bracket ⟨token, kind⟩))
  | block kind => exact reached_push stacked opened waits (.opening (.block .plain ⟨token, kind⟩))

theorem closeBlock_reached {purpose : Purpose} (stacked : Stacked state.outer before)
    (purposed : Purposed purpose tokens) (opening : Sign .openBrace) (body : Derivation .body)
    (closing : Sign .closeBrace)
    (closes : state.closeBlock opening.token.position purpose body.meaning = some next) :
    Reached next (before ++ (tokens ++ opening.token :: (body.tokens ++ [closing.token]))) := by
  have finished := purposed.finish (.block opening body closing)
  obtain ⟨mode, layer, outer⟩ := state
  cases outer with
  | nil => cases purpose <;> cases closes
  | cons around outer =>
    rw [closeBlock_eq] at closes
    have pops : State.pop ⟨mode, layer, around :: outer⟩ _ _ _ = some next := closes
    exact reached_pop stacked finished pops

theorem Inside.waiting_nil {mode : Mode} {layer : Layer} {now : List Token} (inside : Inside mode layer now)
    (between : mode = .opening ∨ mode = .resumed) : layer.waiting = [] := by
  cases inside with
  | opening | resumed | emptyDict => rfl
  | begun _ _ begun => rcases between with rfl | rfl <;> cases begun

/-- What stands in a construct that has just been opened is the beginning of it. -/
theorem Inside.fresh {mode : Mode} {layer : Layer} {now : List Token} (inside : Inside mode layer now)
    (opening : mode = .opening) : Fresh layer.context now := by
  cases inside with
  | opening fresh => exact fresh
  | resumed | emptyDict => cases opening
  | begun _ _ begun => subst opening; cases begun

theorem closeEmpty_reached (stacked : Stacked state.outer before) (inside : Inside state.mode state.layer last)
    (mode : state.mode = .opening ∨ state.mode = .resumed) (closes : state.closeEmpty token = some next) :
    Reached next (before ++ (last ++ [token])) := by
  obtain ⟨mode', ⟨context, waiting⟩, outer⟩ := state
  obtain rfl : waiting = [] := inside.waiting_nil mode
  cases closeEmpty_cases closes with
  | programLead empty context kind =>
    have fresh := inside.fresh empty
    subst context
    cases fresh
    exact ⟨before, [token], rfl, stacked, .resumed (.program (some ⟨token, kind⟩) .nil)⟩
  | blockLead empty context kind =>
    have fresh := inside.fresh empty
    subst context
    cases fresh with
    | block purposed opening =>
      refine ⟨before, _, rfl, stacked, ?_⟩
      simpa [optional, State.expect] using
        Inside.resumed (Opened.block purposed opening (some ⟨token, kind⟩) .nil)
  | block context kind closes =>
    obtain ⟨tokens, more, rfl, opened, waits⟩ := inside.ready (.inr mode)
    subst context
    cases waits
    cases opened with
    | block purposed opening lead series =>
      obtain ⟨body, bodyTokens, meaning⟩ := series.body lead
      rw [← meaning] at closes
      have reached := closeBlock_reached stacked purposed opening body ⟨token, kind⟩ closes
      simpa [bodyTokens] using reached
  | list empty context kind pops =>
    have fresh := inside.fresh empty
    subst context
    cases fresh with
    | bracket opening => exact reached_of_atom stacked (.listEmpty opening ⟨token, kind⟩) pops
  | dict empty context kind =>
    have fresh := inside.fresh empty
    subst context
    cases fresh with
    | bracket opening => exact ⟨before, _, rfl, stacked, .emptyDict opening ⟨token, kind⟩⟩
  | call empty context kind pops =>
    have fresh := inside.fresh empty
    subst context
    cases fresh with
    | arguments name opening => exact reached_of_atom stacked (.callEmpty name opening ⟨token, kind⟩) pops
  | print empty context kind pops =>
    have fresh := inside.fresh empty
    subst context
    cases fresh with
    | print _ word opening => exact reached_of_atom stacked (.printEmpty _ word opening ⟨token, kind⟩) pops

theorem endExpression_reached (stacked : Stacked state.outer before) (opened : Opened state.layer.context tokens)
    (whole : Derivation (.tier .expression))
    (ends : state.endExpression whole.phrase token.kind = some next) :
    Reached next (before ++ (tokens ++ (whole.tokens ++ [token]))) := by
  have popped : ∀ (atom : Derivation (.tier .atom)), atom.tokens = tokens ++ (whole.tokens ++ [token]) →
      state.pop atom.expr atom.start .closed = some next →
      Reached next (before ++ (tokens ++ (whole.tokens ++ [token]))) := by
    intro atom sameTokens pops
    rw [← sameTokens]
    exact reached_of_atom stacked atom pops
  have replaced : ∀ {context : Context} {mode : Mode} {now : List Token}, Inside mode ⟨context, []⟩ now →
      now = tokens ++ (whole.tokens ++ [token]) →
      Reached (state.replace context mode) (before ++ (tokens ++ (whole.tokens ++ [token]))) := by
    intro context mode now inside sameTokens
    exact ⟨before, now, by rw [sameTokens], stacked, inside⟩
  obtain ⟨mode, ⟨context, waiting⟩, outer⟩ := state
  cases endExpression_cases ends with
  | statement context kind =>
    subst context
    cases opened with
    | program lead series =>
      exact replaced (.resumed (.program lead (.more series whole ⟨token, kind⟩))) (by simp)
  | blockStatement context kind =>
    subst context
    cases opened with
    | block purposed opening lead series =>
      exact replaced (.resumed (.block purposed opening lead (.more series whole ⟨token, kind⟩))) (by simp)
  | block context kind closes =>
    subst context
    cases opened with
    | block purposed opening lead series =>
      obtain ⟨body, bodyTokens, meaning⟩ := series.body_last lead whole
      simp only [Derivation.phrase, ← meaning] at closes
      have reached := closeBlock_reached stacked purposed opening body ⟨token, kind⟩ closes
      simpa [bodyTokens] using reached
  | group context kind pops =>
    subst context
    cases opened with
    | group opening => exact popped (.group opening whole ⟨token, kind⟩) rfl pops
  | subscript context kind pops =>
    subst context
    cases opened with
    | subscript target opening =>
      have reached := reached_pop stacked (Finished.subscript target opening whole ⟨token, kind⟩) pops
      simpa using reached
  | firstItem context kind =>
    subst context
    cases opened with
    | bracket opening =>
      exact replaced (.begun (.list opening (.more .nil whole ⟨token, kind⟩)) .nil .operand) (by simp)
  | onlyItem context kind pops =>
    subst context
    cases opened with
    | bracket opening => exact popped (.list opening (.oneItem whole) ⟨token, kind⟩) rfl pops
  | firstKey context kind =>
    subst context
    cases opened with
    | bracket opening =>
      exact replaced (.begun (.entry opening .nil whole ⟨token, kind⟩) .nil .operand) (by simp)
  | item context kind =>
    subst context
    cases opened with
    | list opening series =>
      exact replaced (.begun (.list opening (.more series whole ⟨token, kind⟩)) .nil .operand) (by simp)
  | lastItem context kind pops =>
    subst context
    cases opened with
    | list opening series =>
      obtain ⟨all, allTokens, meaning⟩ := series.items whole
      refine popped (.list opening all ⟨token, kind⟩) (by simp [Derivation.tokens, allTokens]) ?_
      change State.pop _ (.list opening.token.mark all.meaning) _ _ = _
      rwa [meaning]
  | key context kind =>
    subst context
    cases opened with
    | key opening series =>
      exact replaced (.begun (.entry opening series whole ⟨token, kind⟩) .nil .operand) (by simp)
  | pair context kind =>
    subst context
    cases opened with
    | entry opening series key colon =>
      exact replaced (.begun (.key opening (.more series key colon whole ⟨token, kind⟩)) .nil .operand) (by simp)
  | lastPair context kind pops =>
    subst context
    cases opened with
    | entry opening series key colon =>
      obtain ⟨all, allTokens, meaning⟩ := series.pairs key colon whole
      refine popped (.dict opening all ⟨token, kind⟩) (by simp [Derivation.tokens, allTokens]) ?_
      change State.pop _ (.dict opening.token.mark all.meaning) _ _ = _
      rwa [meaning]
  | argument context kind =>
    subst context
    cases opened with
    | arguments name opening series =>
      exact replaced (.begun (.arguments name opening (.more series whole ⟨token, kind⟩)) .nil .operand) (by simp)
  | lastArgument context kind pops =>
    subst context
    cases opened with
    | arguments name opening series =>
      obtain ⟨all, allTokens, meaning⟩ := series.items whole
      refine popped (.call name opening all ⟨token, kind⟩) (by simp [Derivation.tokens, allTokens]) ?_
      change State.pop _ (.call name.token.mark name.token.text all.meaning) _ _ = _
      rwa [meaning]
  | print context kind pops =>
    subst context
    cases opened with
    | print _ word opening => exact popped (.print _ word opening whole ⟨token, kind⟩) rfl pops

theorem openBody_reached (stacked : Stacked state.outer before) (opened : Opened state.layer.context tokens)
    (whole : Derivation (.tier .expression)) (kind : token.kind = .symbol .openBrace)
    (opens : state.openBody whole.phrase token = some next) :
    Reached next (before ++ (tokens ++ (whole.tokens ++ [token]))) := by
  obtain ⟨mode, ⟨context, waiting⟩, outer⟩ := state
  cases openBody_cases opens with
  | branch context =>
    subst context
    cases opened with
    | condition chained word =>
      exact ⟨before, _, by simp, stacked, .opening (.block (.branch chained word whole) ⟨token, kind⟩)⟩
  | loop context =>
    subst context
    cases opened with
    | source word item among =>
      exact ⟨before, _, by simp, stacked, .opening (.block (.loop word item among whole) ⟨token, kind⟩)⟩

theorem exists_binary {kind : Token.Kind} {joint : Joint} (joins : kind.joint? = some joint) :
    ∃ tier left right, Binary tier left kind right joint := by
  simp only [Token.Kind.joint?] at joins
  split at joins <;> cases joins <;> exact ⟨_, _, _, by constructor⟩

theorem joinWith_reached {operand : Operand} {joint : Joint} (stacked : Stacked state.outer before)
    (opened : Opened state.layer.context tokens) (waits : Waits state.layer.waiting more)
    (finished : Finished operand last) (joins : token.kind.joint? = some joint)
    (joined : state.joinWith operand joint = some next) :
    Reached next (before ++ (tokens ++ (more ++ (last ++ [token])))) := by
  obtain ⟨tier, left, right, rule⟩ := exists_binary joins
  obtain ⟨derivation, sameTokens, samePhrase⟩ := finished.unary
  obtain ⟨rest, earlier, tier', whole, settled, waits', all, linear, keeps, stops⟩ :=
    waits.settle derivation (by decide) (looserThan_eight _) left.level
  have tight : left.level ≤ tier'.level := keeps rule.before_le
  obtain ⟨operand', tokens', phrase'⟩ := whole.exists_looser left tight (by omega)
  have state_eq : next = ⟨.operand, ⟨state.layer.context, .join operand'.start joint operand'.expr :: rest⟩,
      state.outer⟩ ∧ looserThan tier.bound rest = true := by
    simp only [State.joinWith, rule.before_level, ← samePhrase, settled, ← phrase'] at joined
    split at joined
    · next allowed =>
      refine ⟨by cases joined; rfl, ?_⟩
      cases rest with
      | nil => rfl
      | cons operator others =>
        have below := stops operator others rfl
        have bound := rule.bound_lt
        have level := rule.before_level
        simp only [looserThan, Bool.or_eq_true, decide_eq_true_eq] at allowed ⊢
        split at level <;> simp_all <;> omega
    · cases joined
  obtain ⟨rfl, looser⟩ := state_eq
  have reached : Reached ⟨.operand, ⟨state.layer.context, .join operand'.start joint operand'.expr :: rest⟩,
      state.outer⟩ _ :=
    reached_of_begun stacked opened (.join waits' rule looser operand' ⟨token, rfl⟩) .operand
  rw [sameTokens] at all
  have order : before ++ (tokens ++ (earlier ++ (operand'.tokens ++ [token]) ++ [])) =
      before ++ (tokens ++ (more ++ (last ++ [token]))) := by
    rw [tokens', List.append_nil, ← List.append_assoc earlier, all, List.append_assoc more]
  exact order ▸ reached

theorem continueOperand_reached {operand : Operand} (stacked : Stacked state.outer before)
    (opened : Opened state.layer.context tokens) (waits : Waits state.layer.waiting more)
    (finished : Finished operand last) (continues : state.continueOperand operand token = some next) :
    Reached next (before ++ (tokens ++ (more ++ (last ++ [token])))) := by
  obtain ⟨⟨expr, start⟩, ending⟩ := operand
  obtain ⟨whole, wholeTokens, wholePhrase⟩ := waits.settled finished
  cases continueOperand_cases continues with
  | subscript kind unsigned =>
    obtain ⟨target, rfl, samePhrase⟩ := finished.unsigned unsigned
    have inside := Inside.begun (Opened.subscript target ⟨token, kind⟩) .nil .operand
    rw [samePhrase] at inside
    simpa using reached_push stacked opened waits inside
  | call kind ending =>
    subst ending
    cases finished with
    | name leaf => exact reached_push stacked opened waits (.opening (.arguments leaf ⟨token, kind⟩))
  | assign kind ending looser =>
    subst ending
    cases finished with
    | name leaf =>
      have reached : Reached (state.wait (.assign leaf.token.position leaf.token.text)) _ :=
        reached_of_begun stacked opened (.assign waits looser leaf ⟨token, kind⟩) .operand
      simpa using reached
  | store kind ending looser =>
    subst ending
    cases finished with
    | subscript target opening index closing =>
      have reached : Reached (state.wait (.store target.start target.expr index.expr)) _ :=
        reached_of_begun stacked opened (.store waits looser target opening index closing ⟨token, kind⟩) .operand
      simpa using reached
  | otherwise kind ending =>
    subst ending
    cases finished with
    | @branches outer front chained word condition yes =>
      have longer := Chained.more chained word condition yes ⟨token, kind⟩
      have headed : ∃ first rest, front ++ word.token :: (condition.tokens ++ yes.tokens ++ [token]) =
          first :: rest ∧ first.position = firstPosition front word.token.position := by
        cases front <;> exact ⟨_, _, rfl, rfl⟩
      obtain ⟨first, rest, same, head⟩ := headed
      rw [same] at longer
      have reached : Reached (state.expect (.lastResort first.position _)) _ :=
        reached_of_begun stacked opened waits (.lastResort longer)
      rw [head, ← same] at reached
      simpa using reached
  | body kind opens =>
    simp only [State.settled, wholePhrase] at opens
    have reached := openBody_reached stacked opened whole kind opens
    simpa [wholeTokens] using reached
  | join joins joined => exact joinWith_reached stacked opened waits finished joins joined
  | ends ends =>
    simp only [State.settled, wholePhrase] at ends
    have reached := endExpression_reached stacked opened whole ends
    simpa [wholeTokens] using reached

/-- In a mode that names what has been begun, the last tokens have begun it. -/
theorem Inside.exists_begun {mode : Mode} {layer : Layer} {now : List Token} (inside : Inside mode layer now)
    (named : mode ≠ .opening ∧ mode ≠ .resumed ∧ ∀ start, mode ≠ .emptyDict start) :
    ∃ tokens more last, now = tokens ++ (more ++ last) ∧ Opened layer.context tokens ∧ Waits layer.waiting more ∧
      Begun mode last := by
  cases inside with
  | opening => exact absurd rfl named.1
  | resumed => exact absurd rfl named.2.1
  | emptyDict => exact absurd rfl (named.2.2 _)
  | begun opened waits begun => exact ⟨_, _, _, rfl, opened, waits, begun⟩

/-- A token that goes on with what has been begun, such as the name of a function after `fn`. -/
theorem reached_of_continued {mode mode' : Mode} {layer : Layer} {outer : List Layer}
    (stacked : Stacked outer before) (inside : Inside mode layer last)
    (continues : ∀ {tokens : List Token}, Begun mode tokens → Begun mode' (tokens ++ [token]))
    (named : mode ≠ .opening ∧ mode ≠ .resumed ∧ ∀ start, mode ≠ .emptyDict start) :
    Reached ⟨mode', layer, outer⟩ (before ++ (last ++ [token])) := by
  obtain ⟨tokens, more, last, rfl, opened, waits, begun⟩ := inside.exists_begun named
  exact ⟨before, tokens ++ (more ++ (last ++ [token])), by simp, stacked,
    .begun opened waits (continues begun)⟩

/-- A token that opens the construct that has been begun. -/
theorem reached_of_pushed {mode mode' : Mode} {layer : Layer} {context : Context} {outer : List Layer}
    (stacked : Stacked outer before) (inside : Inside mode layer last)
    (opens : ∀ {tokens : List Token}, Begun mode tokens → Inside mode' ⟨context, []⟩ (tokens ++ [token]))
    (named : mode ≠ .opening ∧ mode ≠ .resumed ∧ ∀ start, mode ≠ .emptyDict start) :
    Reached ⟨mode', ⟨context, []⟩, layer :: outer⟩ (before ++ (last ++ [token])) := by
  obtain ⟨tokens, more, last, rfl, opened, waits, begun⟩ := inside.exists_begun named
  exact ⟨before ++ (tokens ++ more), _, by simp, .cons stacked opened waits, opens begun⟩

/-- Reading one token keeps account of all tokens. -/
theorem step_reached (reached : Reached state tokens) (steps : state.step token = some next) :
    Reached next (tokens ++ [token]) := by
  obtain ⟨before, now, rfl, stacked, inside⟩ := reached
  rw [List.append_assoc]
  obtain ⟨mode, layer, outer⟩ := state
  cases step_cases steps with
  | begins ready begins =>
    obtain ⟨tokens, more, rfl, opened, waits⟩ := inside.ready ready
    simpa using beginOperand_reached stacked opened waits begins
  | closes mode closes => exact closeEmpty_reached stacked inside mode closes
  | continues mode continues =>
    subst mode
    cases inside with
    | begun opened waits begun =>
      cases begun with
      | operator finished => simpa using continueOperand_reached stacked opened waits finished continues
  | negativeInt mode kind =>
    subst mode
    refine reached_of_continued stacked inside (fun begun => ?_) (by simp)
    cases begun with
    | number sign => exact .operator (.signed (.negativeInt sign ⟨token, kind⟩))
  | negativeFloat mode kind =>
    subst mode
    refine reached_of_continued stacked inside (fun begun => ?_) (by simp)
    cases begun with
    | number sign => exact .operator (.signed (.negativeFloat sign ⟨token, kind⟩))
  | print mode kind =>
    subst mode
    refine reached_of_pushed stacked inside (fun begun => ?_) (by simp)
    cases begun with
    | printParen _ word => exact .opening (.print _ word ⟨token, kind⟩)
  | emptyDict mode kind pops =>
    subst mode
    cases inside with
    | emptyDict opening colon =>
      exact reached_of_atom stacked (.dictEmpty opening colon ⟨token, kind⟩) pops
    | begun _ _ begun => cases begun
  | lastBlock mode kind =>
    subst mode
    refine reached_of_pushed stacked inside (fun begun => ?_) (by simp)
    cases begun with
    | lastResort chained => exact .opening (.block (.lastResort chained) ⟨token, kind⟩)
  | elseIf mode kind =>
    subst mode
    refine reached_of_pushed stacked inside (fun begun => ?_) (by simp)
    cases begun with
    | lastResort chained =>
      simpa [firstPosition] using Inside.begun (Opened.condition chained ⟨token, kind⟩) .nil .operand
  | loopItem mode kind =>
    subst mode
    refine reached_of_continued stacked inside (fun begun => ?_) (by simp)
    cases begun with
    | loopItem word => exact .loopIn word ⟨token, kind⟩
  | loopIn mode kind =>
    subst mode
    refine reached_of_pushed stacked inside (fun begun => ?_) (by simp)
    cases begun with
    | loopIn word item => exact .begun (.source word item ⟨token, kind⟩) .nil .operand
  | functionName mode kind =>
    subst mode
    refine reached_of_continued stacked inside (fun begun => ?_) (by simp)
    cases begun with
    | functionName word => exact .functionParen word ⟨token, kind⟩
  | functionParen mode kind =>
    subst mode
    refine reached_of_continued stacked inside (fun begun => ?_) (by simp)
    cases begun with
    | functionParen word name => exact .firstParameter word name ⟨token, kind⟩
  | firstParameter mode kind =>
    subst mode
    refine reached_of_continued stacked inside (fun begun => ?_) (by simp)
    cases begun with
    | firstParameter word name opening =>
      exact .parameterEnd word name opening (.oneParameter ⟨token, kind⟩)
  | noParameter mode kind =>
    subst mode
    refine reached_of_continued stacked inside (fun begun => ?_) (by simp)
    cases begun with
    | firstParameter word name opening => exact .functionBody (.empty word name opening ⟨token, kind⟩)
  | parameter mode kind =>
    subst mode
    refine reached_of_continued stacked inside (fun begun => ?_) (by simp)
    cases begun with
    | parameter word name opening parameters comma =>
      simpa [Derivation.tokens, Derivation.meaning] using
        Begun.parameterEnd word name opening (.moreParameters parameters comma ⟨token, kind⟩)
  | comma mode kind =>
    subst mode
    refine reached_of_continued stacked inside (fun begun => ?_) (by simp)
    cases begun with
    | parameterEnd word name opening parameters => exact .parameter word name opening parameters ⟨token, kind⟩
  | lastParameter mode kind =>
    subst mode
    refine reached_of_continued stacked inside (fun begun => ?_) (by simp)
    cases begun with
    | parameterEnd word name opening parameters =>
      rw [List.reverse_reverse]
      exact .functionBody (.filled word name opening parameters ⟨token, kind⟩)
  | functionBody mode kind =>
    subst mode
    refine reached_of_pushed stacked inside (fun begun => ?_) (by simp)
    cases begun with
    | functionBody header => exact .opening (.block (.function header) ⟨token, kind⟩)

theorem advance_reached (reached : Reached state tokens) (leads : Leads state last next) :
    Reached next (tokens ++ last) := by
  induction last generalizing state tokens with
  | nil =>
    obtain rfl : state = next := Except.ok.inj leads
    simpa using reached
  | cons token rest ih =>
    simp only [Leads, advance] at leads
    cases step : state.step token with
    | none => simp [step] at leads
    | some middle =>
      simp only [step] at leads
      simpa using ih (step_reached reached step) leads

end Steps

theorem reached_initial : Reached .initial [] := ⟨[], [], rfl, .nil, .opening .program⟩

/-- A program may end only where all its tokens are derived. -/
theorem exists_derivation_of_finish {state : State} {tokens : List Token} {body : List Expr}
    (reached : Reached state tokens) (finishes : state.finish = some body) :
    ∃ derivation : Derivation .body, derivation.tokens = tokens ∧ derivation.meaning = body := by
  obtain ⟨before, now, rfl, stacked, inside⟩ := reached
  obtain ⟨mode, ⟨context, waiting⟩, outer⟩ := state
  cases finish_cases finishes with
  | ended outermost context mode =>
    obtain ⟨tokens, more, rfl, opened, waits⟩ := inside.ready (.inr mode)
    have noWaiting := inside.waiting_nil mode
    subst outermost context noWaiting
    cases stacked
    cases waits
    cases opened with
    | program lead series => simpa using series.body lead
  | last outermost context mode =>
    subst outermost context mode
    cases stacked
    cases inside with
    | begun opened waits begun =>
      cases begun with
      | operator finished =>
        obtain ⟨whole, wholeTokens, wholePhrase⟩ := waits.settled finished
        cases opened with
        | program lead series =>
          obtain ⟨derivation, tokens, meaning⟩ := series.body_last lead whole
          refine ⟨derivation, by simp [tokens, wholeTokens], ?_⟩
          rw [meaning, State.settled, wholePhrase]
          rfl

/-- What is read as a program is derived by the grammar, with the same tree. -/
theorem exists_derivation_of_ofSplit {tokens : List Token} {tree : Expr}
    (reads : ofSplit ⟨tokens, none⟩ = .ok tree) :
    ∃ derivation : Derivation .body, derivation.tokens = tokens ∧ derivation.program = tree := by
  simp only [ofSplit] at reads
  split at reads
  · cases reads
  · cases reads
  · next advanced _ =>
    split at reads
    · next finishes =>
      cases reads
      have reached := advance_reached reached_initial advanced
      obtain ⟨derivation, sameTokens, meaning⟩ := exists_derivation_of_finish reached finishes
      refine ⟨derivation, sameTokens, ?_⟩
      simp only [Derivation.program, sameTokens, meaning, List.nil_append]
    · cases reads

end Corvid.Grammar
