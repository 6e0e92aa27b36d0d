import Corvid.Proofs.Grammar.Derivation

/-!
What the grammar derives is read. Each production has a lemma that says where reading its tokens leads, given
where reading the tokens of its parts leads. An expression of a loose category may leave operators waiting;
what is said of it is that settling them gives the same as settling the finished phrase.
-/
namespace Corvid.Grammar
open Parser

/-- Reading these tokens one after the other goes from one state to the other. -/
def Leads (state : State) (tokens : List Token) (next : State) : Prop := advance state tokens = .ok next

theorem Leads.nil (state : State) : Leads state [] state := rfl

theorem Leads.cons {state middle next : State} {token : Token} {rest : List Token}
    (first : state.step token = some middle) (later : Leads middle rest next) :
    Leads state (token :: rest) next := by
  simp only [Leads, advance, first]
  exact later

theorem Leads.one {state next : State} {token : Token} (step : state.step token = some next) :
    Leads state [token] next := .cons step (.nil next)

theorem Leads.append {state middle next : State} {before after : List Token}
    (first : Leads state before middle) (later : Leads middle after next) :
    Leads state (before ++ after) next := by
  induction before generalizing state with
  | nil =>
    obtain rfl : state = middle := Except.ok.inj first
    exact later
  | cons token rest ih =>
    simp only [Leads, advance, List.cons_append] at first ⊢
    cases step : state.step token with
    | none => simp [step] at first
    | some next => exact ih (by simpa only [Leads, step] using first)

/-- A closing or dividing token after what has been read so far. -/
theorem Leads.snoc {state middle next : State} {before : List Token} {token : Token}
    (first : Leads state before middle) (last : middle.step token = some next) :
    Leads state (before ++ [token]) next := first.append (.one last)

/-- An operand may begin in these modes. -/
def Ready (mode : Mode) : Prop := mode = .operand ∨ mode = .opening ∨ mode = .resumed

theorem step_of_begin {state next : State} {token : Token} (ready : Ready state.mode)
    (begins : state.beginOperand token = some next) : state.step token = some next := by
  rcases ready with mode | mode | mode <;> simp [State.step, mode, begins]

/-! Levels of categories -/

namespace Tier

/-- The level of the operators that a category joins. -/
def level : Tier → Nat
  | .expression => 0
  | .disjunction => 1
  | .conjunction => 2
  | .negation => 3
  | .comparison => 4
  | .concatenation => 5
  | .range => 6
  | .sum => 7
  | .product => 8
  | .unary => 9
  | .operand => 10
  | .atom => 11
  | .block | .conditional | .loop | .function => 12

/-- The highest level that an operator may have which waits for an expression of the category. Assignment and
negation may wait for their own kind. -/
def bound : Tier → Nat
  | .expression | .disjunction => 0
  | .conjunction => 1
  | .negation | .comparison => 3
  | .concatenation => 4
  | .range => 5
  | .sum => 6
  | .product => 7
  | _ => 8

end Tier

theorem looserThan_mono {low high : Nat} {waiting : List Waiting} (fits : looserThan low waiting = true)
    (le : low ≤ high) : looserThan high waiting = true := by
  cases waiting with
  | nil => rfl
  | cons operator rest =>
    simp only [looserThan, decide_eq_true_eq] at fits ⊢
    exact Nat.le_trans fits le

theorem Joint.level_le (joint : Joint) : joint.level ≤ 8 := by
  cases joint with
  | arithmetic op | logical op => cases op <;> decide
  | _ => simp [Joint.level]

theorem looserThan_eight (waiting : List Waiting) : looserThan 8 waiting = true := by
  cases waiting with
  | nil => rfl
  | cons operator rest =>
    cases operator with
    | join _ joint _ => exact decide_eq_true (Joint.level_le joint)
    | _ => rfl

/-- Operators that bind looser than a level keep waiting. -/
theorem settle_of_looser {level : Nat} {waiting : List Waiting} (phrase : Phrase)
    (fits : looserThan level waiting = true) : settle (level + 1) waiting phrase = (waiting, phrase) := by
  cases waiting with
  | nil => rfl
  | cons operator rest =>
    simp only [looserThan, decide_eq_true_eq] at fits
    simp only [settle, Nat.not_le.mpr (Nat.lt_succ_of_le fits), if_false]

theorem settle_cons {level : Nat} {operator : Waiting} (rest : List Waiting) (phrase : Phrase)
    (le : level ≤ operator.level) :
    settle level (operator :: rest) phrase = settle level rest (operator.complete phrase.expr) := by
  simp only [settle, le, if_true]

namespace Binary

variable {tier before after : Tier} {kind : Token.Kind} {joint : Joint}

theorem joint_eq (rule : Binary tier before kind after joint) : kind.joint? = some joint := by
  cases rule <;> rfl

theorem level_eq (rule : Binary tier before kind after joint) : joint.level = tier.level := by
  cases rule <;> rfl

theorem after_bound (rule : Binary tier before kind after joint) : joint.level ≤ after.bound := by
  cases rule <;> decide

theorem bound_lt (rule : Binary tier before kind after joint) : tier.bound + 1 = joint.level := by
  cases rule <;> rfl

theorem before_bound (rule : Binary tier before kind after joint) : tier.bound ≤ before.bound := by
  cases rule <;> decide

theorem after_level (rule : Binary tier before kind after joint) : tier.level < after.level := by
  cases rule <;> decide

theorem before_le (rule : Binary tier before kind after joint) : before.level ≤ 9 := by
  cases rule <;> decide

theorem tier_le (rule : Binary tier before kind after joint) : tier.level ≤ 9 := by
  cases rule <;> decide

/-- The level to which waiting operators are settled before the sign is read. -/
theorem before_level (rule : Binary tier before kind after joint) :
    (if joint.chains then joint.level else joint.level + 1) = before.level := by
  cases rule <;> rfl

end Binary

theorem Passes.level_lt {outer inner : Tier} (rule : Passes outer inner) : outer.level < inner.level := by
  cases rule <;> decide

theorem Passes.bound_le {outer inner : Tier} (rule : Passes outer inner) : outer.bound ≤ inner.bound := by
  cases rule <;> decide

/-! Where reading a derivation leads -/

/-- The operand that a block becomes when it is closed. -/
def closedBlock (block : Expr) (start : Position) : Purpose → Operand
  | .plain => ⟨⟨block, start⟩, .closed⟩
  | .branch head own condition outer =>
    let branches := ⟨own, condition, block⟩ :: outer
    ⟨⟨chain branches (.block .absent []), head⟩, .branches branches⟩
  | .lastResort head branches => ⟨⟨chain branches block, head⟩, .closed⟩
  | .loop own item source => ⟨⟨.loop (.spot own) item source block, own⟩, .closed⟩
  | .function own name parameters => ⟨⟨.function (.spot own) name parameters block, own⟩, .closed⟩

theorem closeBlock_eq (mode : Mode) (inner layer : Layer) (outer : List Layer) (start : Position)
    (purpose : Purpose) (body : List Expr) :
    State.closeBlock ⟨mode, inner, layer :: outer⟩ start purpose body =
      some ⟨.operator (closedBlock (.block (.spot start) body) start purpose), layer, outer⟩ := by
  cases purpose <;> rfl

namespace Derivation

/-- What may follow the last token of a derivation. Branches before it are the chain that a conditional
continues. -/
def ending (outer : List Branch) : {category : Category} → Derivation category → Ending
  | _, pass _ inside => inside.ending outer
  | _, negativeInt .. => .signed
  | _, negativeFloat .. => .signed
  | _, identifier leaf => .name leaf.token.text
  | _, subscript target _ index _ => .subscript target.expr index.expr
  | _, ifOnly word condition yes => .branches (⟨word.token.position, condition.expr, yes.expr⟩ :: outer)
  | _, ifChain word condition yes _ no => no.ending (⟨word.token.position, condition.expr, yes.expr⟩ :: outer)
  | _, _ => .closed

def phrase {tier : Tier} (derivation : Derivation (.tier tier)) : Phrase :=
  ⟨derivation.expr, derivation.start⟩

end Derivation

/-- A context that collects expressions: after one of them, a token of the kind asks for the next in the mode. -/
def Collects (context : List Expr → Context) (kind : Token.Kind) (mode : Mode) : Prop :=
  ∀ (state : State) (done : List Expr) (phrase : Phrase), state.layer.context = context done →
    state.endExpression phrase kind = some (state.replace (context (phrase.expr :: done)) mode)

/-- The state after a whole expression inside a construct: operators may still wait. -/
def After (context : Context) (outer : List Layer) (expr : Expr) (state : State) : Prop :=
  ∃ waiting operand, state = ⟨.operator operand, ⟨context, waiting⟩, outer⟩ ∧
    (settle 0 waiting operand.toPhrase).2.expr = expr

/-- The context in which the next key of a dictionary is read. -/
def keyContext (start : Position) : List (Expr × Expr) → Context
  | [] => .bracket start
  | pair :: done => .key start (pair :: done)

/-- The context in which the next element of a list is read. -/
def elementContext (start : Position) : List Expr → Context
  | [] => .bracket start
  | expr :: done => .list start (expr :: done)

/-- Reading leaves a finished operand. -/
def Tight {tier : Tier} (derivation : Derivation (.tier tier)) : Prop :=
  ∀ state : State, Ready state.mode →
    Leads state derivation.tokens (state.give derivation.expr derivation.start (derivation.ending []))

/-- Reading leaves an operand and perhaps operators that wait for it. To settle them down to a level of the
category is to settle the finished phrase. -/
def Loose {tier : Tier} (derivation : Derivation (.tier tier)) : Prop :=
  ∀ state : State, Ready state.mode → looserThan tier.bound state.layer.waiting = true →
    ∃ waiting operand, Leads state derivation.tokens
        ⟨.operator operand, ⟨state.layer.context, waiting⟩, state.outer⟩ ∧
      ∀ level ≤ tier.level, settle level waiting operand.toPhrase =
        settle level state.layer.waiting derivation.phrase

/-- What reading a single expression does. The bodies of blocks and the branches of conditionals are said to be
read after their first token, since other constructs continue with them. -/
def RunsTier : (tier : Tier) → Derivation (.tier tier) → Prop
  | .block, derivation => ∀ (state : State) (purpose : Purpose),
    Leads (state.push (.block derivation.start purpose []) .opening) derivation.tokens.tail
      (state.expect (.operator (closedBlock derivation.expr derivation.start purpose)))
  | .conditional, derivation => ∀ (state : State) (head : Position) (outer : List Branch),
    Leads (state.push (.condition head derivation.start outer) .operand) derivation.tokens.tail
      (state.give (chain outer derivation.expr) head (derivation.ending outer))
  | .operand, derivation | .atom, derivation | .loop, derivation | .function, derivation =>
    Tight derivation
  | _, derivation => Loose derivation

/-- Reading a series of expressions leaves all but the last of them in the context. -/
def RunsSeries (kind : Token.Kind) (next : Mode) (tokens : List Token) (exprs : List Expr) : Prop :=
  ∀ (context : List Expr → Context) (done : List Expr) (mode : Mode) (outer : List Layer),
    Collects context kind next → Ready mode →
    ∃ last front state, Leads ⟨mode, ⟨context done, []⟩, outer⟩ tokens state ∧
      After (context front) outer last state ∧ exprs.reverse ++ done = last :: front

/-- What reading a derivation does, in the contexts where its category stands. -/
def Runs : {category : Category} → Derivation category → Prop
  | .tier tier, derivation => RunsTier tier derivation
  | .body, derivation => ∀ (context : List Expr → Context) (outer : List Layer),
    Collects context .separator .resumed →
    (context [] = .program [] ∨ ∃ start purpose, context [] = .block start purpose []) →
    ∃ done state, Leads ⟨.opening, ⟨context [], []⟩, outer⟩ derivation.tokens state ∧
      ((∃ mode, (mode = .opening ∨ mode = .resumed) ∧ state = ⟨mode, ⟨context done, []⟩, outer⟩ ∧
          derivation.meaning = done.reverse) ∨
        ∃ last, After (context done) outer last state ∧ derivation.meaning = (last :: done).reverse)
  | .statements, derivation => RunsSeries .separator .resumed derivation.tokens derivation.meaning
  | .items, derivation => RunsSeries (.symbol .comma) .operand derivation.tokens derivation.meaning
  | .pairs, derivation => ∀ (start : Position) (done : List (Expr × Expr)) (mode : Mode)
      (outer : List Layer), Ready mode →
    ∃ key last front state, Leads ⟨mode, ⟨keyContext start done, []⟩, outer⟩ derivation.tokens state ∧
      After (.entry start front key) outer last state ∧
      derivation.meaning.reverse ++ done = (key, last) :: front
  | .parameters, derivation => ∀ (state : State) (start : Position) (name : String),
    Leads (state.expect (.firstParameter start name)) derivation.tokens
      (state.expect (.parameterEnd start name derivation.meaning.reverse))

/-! Whole expressions inside a construct -/

/-- Kinds of tokens that divide or end a construct after an expression. -/
def divides : Token.Kind → Bool
  | .separator | .symbol .comma | .symbol .colon | .symbol .closeParen | .symbol .closeBracket
  | .symbol .closeBrace => true
  | _ => false

theorem step_divides {state : State} {operand : Operand} {token : Token} (mode : state.mode = .operator operand)
    (dividing : divides token.kind = true) :
    state.step token = state.endExpression (state.settled operand) token.kind := by
  simp only [State.step, mode, State.continueOperand]
  revert dividing
  cases token.kind with
  | symbol sign => cases sign <;> cases operand.ending <;> simp [divides, Token.Kind.joint?]
  | keyword word => simp [divides]
  | _ => simp [divides, Token.Kind.joint?]

theorem After.step {context : Context} {outer : List Layer} {expr : Expr} {state : State} {token : Token}
    (after : After context outer expr state) (dividing : divides token.kind = true) :
    ∃ phrase, phrase.expr = expr ∧ state.step token = state.endExpression phrase token.kind := by
  obtain ⟨waiting, operand, rfl, settled⟩ := after
  exact ⟨_, settled, step_divides rfl dividing⟩

theorem After.context_eq {context : Context} {outer : List Layer} {expr : Expr} {state : State}
    (after : After context outer expr state) : state.layer.context = context ∧ state.outer = outer := by
  obtain ⟨waiting, operand, rfl, settled⟩ := after
  exact ⟨rfl, rfl⟩

/-- An expression read from the start of a construct is settled whole. -/
theorem Loose.whole {derivation : Derivation (.tier .expression)} (loose : Loose derivation) (context : Context)
    (outer : List Layer) {mode : Mode} (ready : Ready mode) :
    ∃ state, Leads ⟨mode, ⟨context, []⟩, outer⟩ derivation.tokens state ∧
      After context outer derivation.expr state := by
  obtain ⟨waiting, operand, leads, settled⟩ := loose ⟨mode, ⟨context, []⟩, outer⟩ ready rfl
  refine ⟨_, leads, waiting, operand, rfl, ?_⟩
  rw [settled 0 (Nat.le_refl 0)]
  rfl

/-- An expression and the token that ends the construct around it. -/
theorem Loose.closed {derivation : Derivation (.tier .expression)} (loose : Loose derivation) {context : Context}
    {outer : List Layer} {mode : Mode} {token : Token} {next : State} (ready : Ready mode)
    (dividing : divides token.kind = true)
    (closes : ∀ (state : State) (phrase : Phrase), state.layer.context = context → state.outer = outer →
      phrase.expr = derivation.expr → state.endExpression phrase token.kind = some next) :
    Leads ⟨mode, ⟨context, []⟩, outer⟩ (derivation.tokens ++ [token]) next := by
  obtain ⟨state, leads, after⟩ := loose.whole context outer ready
  obtain ⟨phrase, same, step⟩ := after.step dividing
  exact leads.snoc (step.trans (closes state phrase after.context_eq.1 after.context_eq.2 same))

/-! Expressions with operators -/

theorem Tight.loose {tier : Tier} {derivation : Derivation (.tier tier)} (tight : Tight derivation) :
    Loose derivation := by
  intro state ready _
  exact ⟨state.layer.waiting, ⟨derivation.phrase, derivation.ending []⟩, tight state ready, fun _ _ => rfl⟩

theorem Loose.pass {outer inner : Tier} {inside : Derivation (.tier inner)} (rule : Passes outer inner)
    (loose : Loose inside) : Loose (.pass rule inside) := by
  intro state ready fits
  obtain ⟨waiting, operand, leads, settled⟩ := loose state ready (looserThan_mono fits rule.bound_le)
  exact ⟨waiting, operand, leads, fun level le =>
    settled level (Nat.le_trans le (Nat.le_of_lt rule.level_lt))⟩

theorem step_joint {state : State} {operand : Operand} {token : Token} {joint : Joint}
    (mode : state.mode = .operator operand) (joins : token.kind.joint? = some joint) :
    state.step token = state.joinWith operand joint := by
  simp only [State.step, mode, State.continueOperand]
  revert joins
  cases token.kind with
  | symbol sign => cases sign <;> simp +contextual [Token.Kind.joint?]
  | keyword word => cases word <;> simp +contextual [Token.Kind.joint?]
  | _ => simp [Token.Kind.joint?]

theorem Loose.join {tier before after : Tier} {kind : Token.Kind} {joint : Joint}
    {left : Derivation (.tier before)} {sign : Leaf kind} {right : Derivation (.tier after)}
    (rule : Binary tier before kind after joint) (first : Loose left) (second : Loose right) :
    Loose (.join rule left sign right) := by
  intro state ready fits
  obtain ⟨waiting, operand, leads, settled⟩ := first state ready (looserThan_mono fits rule.before_bound)
  have tighter : tier.bound + 1 ≤ before.level := by
    rw [rule.bound_lt, ← rule.before_level]
    split <;> omega
  obtain ⟨more, levelEq⟩ := Nat.exists_eq_add_of_le tighter
  have left_settled : settle before.level waiting operand.toPhrase =
      (state.layer.waiting, left.phrase) := by
    rw [settled _ (Nat.le_refl _), levelEq, Nat.add_right_comm]
    exact settle_of_looser _ (looserThan_mono fits (Nat.le_add_right _ _))
  have step : State.step ⟨.operator operand, ⟨state.layer.context, waiting⟩, state.outer⟩ sign.token =
      some ⟨.operand, ⟨state.layer.context, .join left.start joint left.expr :: state.layer.waiting⟩,
        state.outer⟩ := by
    rw [step_joint rfl (by rw [sign.fits]; exact rule.joint_eq), State.joinWith]
    have looser : looserThan (joint.level - 1) state.layer.waiting = true :=
      looserThan_mono fits (by have := rule.bound_lt; omega)
    simp [rule.before_level, left_settled, looser, Derivation.phrase]
  obtain ⟨waiting', operand', leads', settled'⟩ := second
    ⟨.operand, ⟨state.layer.context, .join left.start joint left.expr :: state.layer.waiting⟩, state.outer⟩
    (.inl rfl) (decide_eq_true rule.after_bound)
  refine ⟨waiting', operand', leads.append (.cons step leads'), ?_⟩
  intro level le
  rw [settled' level (Nat.le_trans le (Nat.le_of_lt rule.after_level))]
  rw [settle_cons _ _ (by rw [Waiting.level, rule.level_eq]; exact le)]
  simp [Waiting.complete, Derivation.phrase, Derivation.expr, Derivation.meaning, Derivation.mark]

theorem step_name {state : State} {leaf : Leaf .name} (ready : Ready state.mode) :
    state.step leaf.token =
      some (state.give (.name leaf.token.mark leaf.token.text) leaf.token.position (.name leaf.token.text)) :=
  step_of_begin ready (by simp [State.beginOperand, leaf.fits])

theorem Loose.assign {name : Leaf .name} {sign : Sign .assign} {value : Derivation (.tier .expression)}
    (loose : Loose value) : Loose (.assign name sign value) := by
  intro state ready fits
  have step : (state.give (.name name.token.mark name.token.text) name.token.position
      (.name name.token.text)).step sign.token = some (state.wait (.assign name.token.position name.token.text)) := by
    have looser : looserThan 0 state.layer.waiting = true := fits
    simp [State.step, State.give, State.expect, State.continueOperand, sign.fits, looser, State.wait]
  obtain ⟨waiting, operand, leads, settled⟩ :=
    loose (state.wait (.assign name.token.position name.token.text)) (.inl rfl) rfl
  refine ⟨waiting, operand, .cons (step_name ready) (.cons step leads), ?_⟩
  intro level le
  rw [settled level le]
  exact settle_cons _ _ le

theorem Loose.negate {word : Word .kwNot} {operand : Derivation (.tier .negation)}
    (loose : Loose operand) : Loose (.negate word operand) := by
  intro state ready fits
  have looser : looserThan 3 state.layer.waiting = true := fits
  have step : state.step word.token = some (state.wait (.negate word.token.position)) :=
    step_of_begin ready (by simp [State.beginOperand, word.fits, looser])
  obtain ⟨waiting, inner, leads, settled⟩ :=
    loose (state.wait (.negate word.token.position)) (.inl rfl) rfl
  refine ⟨waiting, inner, .cons step leads, ?_⟩
  intro level le
  rw [settled level le]
  exact settle_cons _ _ le

theorem Loose.negative {kind : Token.Kind} (number : Numeric kind) {sign : Sign .minus} {digits : Leaf kind} :
    Loose (.negative number sign digits) := by
  intro state ready _
  have first : state.step sign.token = some (state.expect (.number sign.token.position)) :=
    step_of_begin ready (by simp [State.beginOperand, sign.fits])
  have second : (state.expect (.number sign.token.position)).step digits.token =
      some (state.give (Derivation.negative number sign digits).expr sign.token.position .signed) := by
    cases number <;> simp only [State.step, State.expect, digits.fits] <;> rfl
  have phrase : (Derivation.negative number sign digits).phrase =
      ⟨(Derivation.negative number sign digits).expr, sign.token.position⟩ := by
    rw [Derivation.phrase, Derivation.start, Derivation.tokens_negative]
  rw [Derivation.tokens_negative, phrase]
  exact ⟨_, _, .cons first (.one second), fun _ _ => rfl⟩

/-! Operands -/

/-- Only a negative literal admits no subscript, and it is no operand by itself. -/
theorem ending_ne_signed {category : Category} (derivation : Derivation category) (outer : List Branch)
    (tight : ∀ tier, category = .tier tier → 10 ≤ tier.level) : derivation.ending outer ≠ .signed := by
  induction derivation generalizing outer with
  | pass rule inside ih =>
    exact ih outer fun tier same => by
      cases same
      exact Nat.le_of_lt (Nat.lt_of_le_of_lt (tight _ rfl) rule.level_lt)
  | negativeInt | negativeFloat => exact absurd (tight _ rfl) (by decide)
  | ifChain _ _ _ _ _ _ _ ih => exact ih _ fun tier same => by cases same; decide
  | _ => simp [Derivation.ending]

theorem step_openBracket {state : State} {operand : Operand} {opening : Sign .openBracket}
    (mode : state.mode = .operator operand) (unsigned : operand.ending ≠ .signed) :
    state.step opening.token = some (state.push (.subscript operand.toPhrase) .operand) := by
  simp only [State.step, mode, State.continueOperand, opening.fits]

theorem Tight.subscript {target : Derivation (.tier .operand)} {opening : Sign .openBracket}
    {index : Derivation (.tier .expression)} {closing : Sign .closeBracket} (first : Tight target)
    (second : Loose index) : Tight (.subscript target opening index closing) := by
  intro state ready
  have unsigned := ending_ne_signed target [] fun tier same => by cases same; decide
  refine (first state ready).append (.cons (step_openBracket rfl unsigned) ?_)
  refine second.closed (.inl rfl) (by rw [closing.fits]; rfl) ?_
  intro inner phrase context outer same
  simp [State.endExpression, context, closing.fits, State.pop, outer, same, State.give, State.expect,
    Derivation.expr, Derivation.meaning, Derivation.mark, Derivation.ending]

theorem Loose.store {target : Derivation (.tier .operand)} {opening : Sign .openBracket}
    {index : Derivation (.tier .expression)} {closing : Sign .closeBracket} {sign : Sign .assign}
    {value : Derivation (.tier .expression)} (first : Tight target) (second : Loose index)
    (third : Loose value) : Loose (.store target opening index closing sign value) := by
  intro state ready fits
  have read : Tight (.subscript target opening index closing) := first.subscript second
  have step : (state.give (Derivation.subscript target opening index closing).expr
      (Derivation.subscript target opening index closing).start (.subscript target.expr index.expr)).step
      sign.token = some (state.wait (.store target.start target.expr index.expr)) := by
    have looser : looserThan 0 state.layer.waiting = true := fits
    simp [State.step, State.give, State.expect, State.continueOperand, sign.fits, looser, State.wait]
  obtain ⟨waiting, operand, leads, settled⟩ :=
    third (state.wait (.store target.start target.expr index.expr)) (.inl rfl) rfl
  refine ⟨waiting, operand, ?_, ?_⟩
  · have all := (read state ready).append (.cons step leads)
    simpa [Derivation.tokens, State.wait] using all
  · intro level le
    rw [settled level le, State.wait, settle_cons _ _ (by exact le)]
    simp [Waiting.complete, Derivation.phrase, Derivation.expr, Derivation.meaning, Derivation.mark]

/-- Atoms of a single token. -/
theorem tight_of_begin {derivation : Derivation (.tier .atom)} {token : Token} (tokens : derivation.tokens = [token])
    (begins : ∀ state : State, state.beginOperand token =
      some (state.give derivation.expr token.position (derivation.ending []))) : Tight derivation := by
  intro state ready
  have start : derivation.start = token.position := by simp [Derivation.start, tokens]
  rw [tokens, start]
  exact .one (step_of_begin ready (begins state))

theorem Tight.int {leaf : Leaf .int} : Tight (.int leaf) :=
  tight_of_begin rfl fun _ => by simp only [State.beginOperand, leaf.fits]; rfl

theorem Tight.float {leaf : Leaf .float} : Tight (.float leaf) :=
  tight_of_begin rfl fun _ => by simp only [State.beginOperand, leaf.fits]; rfl

theorem Tight.string {leaf : Leaf .string} : Tight (.string leaf) :=
  tight_of_begin rfl fun _ => by simp only [State.beginOperand, leaf.fits]; rfl

theorem Tight.truth {word : Word .kwTrue} : Tight (.truth word) :=
  tight_of_begin rfl fun _ => by simp only [State.beginOperand, word.fits]; rfl

theorem Tight.falsity {word : Word .kwFalse} : Tight (.falsity word) :=
  tight_of_begin rfl fun _ => by simp only [State.beginOperand, word.fits]; rfl

theorem Tight.nothing {word : Word .kwNone} : Tight (.nothing word) :=
  tight_of_begin rfl fun _ => by simp only [State.beginOperand, word.fits]; rfl

theorem Tight.identifier {leaf : Leaf .name} : Tight (.identifier leaf) :=
  tight_of_begin rfl fun _ => by simp only [State.beginOperand, leaf.fits]; rfl

theorem Tight.group {opening : Sign .openParen} {inside : Derivation (.tier .expression)}
    {closing : Sign .closeParen} (loose : Loose inside) : Tight (.group opening inside closing) := by
  intro state ready
  refine .cons (step_of_begin ready (by simp only [State.beginOperand, opening.fits]; rfl)) ?_
  refine loose.closed (.inl rfl) (by rw [closing.fits]; rfl) ?_
  intro inner phrase context outer same
  simp only [State.endExpression, context, closing.fits, State.pop, outer, same]
  rfl

/-! Series of expressions -/

theorem runsSeries_one {kind : Token.Kind} {next : Mode} {only : Derivation (.tier .expression)}
    (loose : Loose only) : RunsSeries kind next only.tokens [only.expr] := by
  intro context done mode outer _ ready
  obtain ⟨state, leads, after⟩ := loose.whole (context done) outer ready
  exact ⟨only.expr, done, state, leads, after, rfl⟩

theorem RunsSeries.more {kind : Token.Kind} {next : Mode} {tokens : List Token} {exprs : List Expr}
    {token : Token} {last : Derivation (.tier .expression)} (front : RunsSeries kind next tokens exprs)
    (fits : token.kind = kind) (dividing : divides kind = true) (resumes : Ready next)
    (loose : Loose last) : RunsSeries kind next (tokens ++ token :: last.tokens) (exprs ++ [last.expr]) := by
  intro context done mode outer collects ready
  obtain ⟨expr, before, state, leads, after, same⟩ := front context done mode outer collects ready
  obtain ⟨phrase, rfl, step⟩ := after.step (fits ▸ dividing)
  rw [fits, collects state before phrase after.context_eq.1, State.replace, after.context_eq.2] at step
  obtain ⟨state', leads', after'⟩ := loose.whole (context (phrase.expr :: before)) outer resumes
  exact ⟨last.expr, phrase.expr :: before, state', leads.append (.cons step leads'), after',
    by simp [same]⟩

/-- A series and the token that ends the construct around it. -/
theorem RunsSeries.closed {kind : Token.Kind} {next mode : Mode} {tokens : List Token} {exprs : List Expr}
    (series : RunsSeries kind next tokens exprs) {outer : List Layer} {token : Token}
    (context : List Expr → Context) (result : List Expr → State) (collects : Collects context kind next)
    (ready : Ready mode) (dividing : divides token.kind = true)
    (closes : ∀ (state : State) (phrase : Phrase) (done : List Expr), state.layer.context = context done →
      state.outer = outer → state.endExpression phrase token.kind = some (result (phrase.expr :: done).reverse)) :
    Leads ⟨mode, ⟨context [], []⟩, outer⟩ (tokens ++ [token]) (result exprs) := by
  obtain ⟨expr, front, state, leads, after, same⟩ := series context [] mode outer collects ready
  obtain ⟨phrase, rfl, step⟩ := after.step dividing
  rw [closes state phrase front after.context_eq.1 after.context_eq.2] at step
  have all : (phrase.expr :: front).reverse = exprs := by
    rw [← same]
    simp
  exact all ▸ leads.snoc step

theorem collects_elements (start : Position) :
    Collects (elementContext start) (.symbol .comma) .operand := by
  intro state done phrase context
  cases done <;> simp [elementContext] at context <;> simp [State.endExpression, context, elementContext]

theorem collects_arguments (start : Position) (name : String) :
    Collects (.arguments start name) (.symbol .comma) .operand := by
  intro state done phrase context
  simp [State.endExpression, context]

/-- A token that begins no operand, at the start of a construct or after a separator. -/
theorem step_of_close {state next : State} {token : Token} (mode : state.mode = .opening ∨ state.mode = .resumed)
    (begins : state.beginOperand token = none) (closes : state.closeEmpty token = some next) :
    state.step token = some next := by
  rcases mode with mode | mode <;> simp [State.step, mode, begins, closes]

theorem step_openParen_name {state : State} {opening : Sign .openParen} {expr : Expr} {start : Position}
    {text : String} : (state.give expr start (.name text)).step opening.token =
      some (state.push (.arguments start text []) .opening) := by
  simp only [State.step, State.give, State.expect, State.continueOperand, opening.fits]
  rfl

theorem Tight.callEmpty {name : Leaf .name} {opening : Sign .openParen} {closing : Sign .closeParen} :
    Tight (.callEmpty name opening closing) := by
  intro state ready
  refine .cons (step_name ready) (.cons step_openParen_name (.one ?_))
  refine step_of_close (.inl rfl) ?_ ?_
  · simp only [State.beginOperand, closing.fits]
  · simp only [State.closeEmpty, closing.fits, State.push, State.pop]
    rfl

theorem Tight.call {name : Leaf .name} {opening : Sign .openParen} {arguments : Derivation .items}
    {closing : Sign .closeParen} (series : Runs arguments) : Tight (.call name opening arguments closing) := by
  intro state ready
  refine .cons (step_name ready) (.cons step_openParen_name ?_)
  refine RunsSeries.closed series (.arguments name.token.position name.token.text)
    (fun exprs => state.give (.call name.token.mark name.token.text exprs) name.token.position .closed)
    (collects_arguments _ _) (.inr (.inl rfl)) (by rw [closing.fits]; rfl) ?_
  intro inner phrase done context outer
  simp only [State.endExpression, context, closing.fits, State.pop, outer]
  rfl

theorem step_print {state : State} {newline : Bool} {word : Word (printWord newline)} (ready : Ready state.mode) :
    state.step word.token = some (state.expect (.printParen word.token.position newline)) := by
  refine step_of_begin ready ?_
  cases newline <;> simp [State.beginOperand, word.fits, printWord]

theorem step_printParen {state : State} {start : Position} {newline : Bool} {opening : Sign .openParen} :
    (state.expect (.printParen start newline)).step opening.token =
      some (state.push (.print start newline) .opening) := by
  simp only [State.step, State.expect, opening.fits]
  rfl

theorem Tight.printEmpty {newline : Bool} {word : Word (printWord newline)} {opening : Sign .openParen}
    {closing : Sign .closeParen} : Tight (.printEmpty newline word opening closing) := by
  intro state ready
  refine .cons (step_print ready) (.cons step_printParen (.one ?_))
  refine step_of_close (.inl rfl) ?_ ?_
  · simp only [State.beginOperand, closing.fits]
  · simp only [State.closeEmpty, closing.fits, State.push, State.pop]
    rfl

theorem Tight.print {newline : Bool} {word : Word (printWord newline)} {opening : Sign .openParen}
    {shown : Derivation (.tier .expression)} {closing : Sign .closeParen} (loose : Loose shown) :
    Tight (.print newline word opening shown closing) := by
  intro state ready
  refine .cons (step_print ready) (.cons step_printParen ?_)
  refine loose.closed (.inr (.inl rfl)) (by rw [closing.fits]; rfl) ?_
  intro inner phrase context outer same
  simp only [State.endExpression, context, closing.fits, State.pop, outer, same]
  rfl

theorem step_bracket {state : State} {opening : Sign .openBracket} (ready : Ready state.mode) :
    state.step opening.token = some (state.push (.bracket opening.token.position) .opening) :=
  step_of_begin ready (by simp [State.beginOperand, opening.fits])

theorem Tight.listEmpty {opening : Sign .openBracket} {closing : Sign .closeBracket} :
    Tight (.listEmpty opening closing) := by
  intro state ready
  refine .cons (step_bracket ready) (.one (step_of_close (.inl rfl) ?_ ?_))
  · simp only [State.beginOperand, closing.fits]
  · simp only [State.closeEmpty, closing.fits, State.push, State.pop]
    rfl

theorem Tight.list {opening : Sign .openBracket} {elements : Derivation .items}
    {closing : Sign .closeBracket} (series : Runs elements) : Tight (.list opening elements closing) := by
  intro state ready
  refine .cons (step_bracket ready) ?_
  refine RunsSeries.closed series (elementContext opening.token.position)
    (fun exprs => state.give (.list opening.token.mark exprs) opening.token.position .closed)
    (collects_elements _) (.inr (.inl rfl)) (by rw [closing.fits]; rfl) ?_
  intro inner phrase done context outer
  cases done <;> simp only [elementContext] at context <;>
    simp only [State.endExpression, context, closing.fits, State.pop, outer] <;> rfl

/-! Dictionaries -/

/-- A key and its value, after any number of pairs. -/
theorem runs_pair {key value : Derivation (.tier .expression)} {colon : Sign .colon} (first : Loose key)
    (second : Loose value) (start : Position) (done : List (Expr × Expr)) (outer : List Layer) {mode : Mode}
    (ready : Ready mode) :
    ∃ state, Leads ⟨mode, ⟨keyContext start done, []⟩, outer⟩ (key.tokens ++ colon.token :: value.tokens) state ∧
      After (.entry start done key.expr) outer value.expr state := by
  obtain ⟨state, leads, after⟩ := first.whole (keyContext start done) outer ready
  obtain ⟨phrase, same, step⟩ := after.step (by rw [colon.fits]; rfl)
  have divided : state.step colon.token = some ⟨.operand, ⟨.entry start done key.expr, []⟩, outer⟩ := by
    rw [step, colon.fits, ← same]
    have context := after.context_eq.1
    cases done <;> simp only [keyContext] at context <;>
      simp [State.endExpression, context, State.replace, after.context_eq.2]
  obtain ⟨state', leads', after'⟩ := second.whole (.entry start done key.expr) outer (.inl rfl)
  exact ⟨state', leads.append (.cons divided leads'), after'⟩

theorem Runs.onePair {key value : Derivation (.tier .expression)} {colon : Sign .colon} (first : Loose key)
    (second : Loose value) : Runs (.onePair key colon value) := by
  intro start done mode outer ready
  obtain ⟨state, leads, after⟩ := runs_pair first second start done outer ready
  exact ⟨key.expr, value.expr, done, state, leads, after, rfl⟩

theorem Runs.morePairs {front : Derivation .pairs} {comma : Sign .comma}
    {key value : Derivation (.tier .expression)} {colon : Sign .colon} (before : Runs front)
    (first : Loose key) (second : Loose value) : Runs (.morePairs front comma key colon value) := by
  intro start done mode outer ready
  obtain ⟨lastKey, last, earlier, state, leads, after, same⟩ := before start done mode outer ready
  obtain ⟨phrase, rfl, step⟩ := after.step (by rw [comma.fits]; rfl)
  have divided : state.step comma.token =
      some ⟨.operand, ⟨keyContext start ((lastKey, phrase.expr) :: earlier), []⟩, outer⟩ := by
    simp only [step, comma.fits, State.endExpression, after.context_eq.1, State.replace, after.context_eq.2]
    rfl
  obtain ⟨state', leads', after'⟩ :=
    runs_pair first second start ((lastKey, phrase.expr) :: earlier) outer (.inl rfl)
  refine ⟨key.expr, value.expr, _, state', leads.append (.cons divided leads'), after', ?_⟩
  rw [← same]
  simp [Derivation.meaning, Derivation.expr]

theorem Tight.dictEmpty {opening : Sign .openBracket} {colon : Sign .colon} {closing : Sign .closeBracket} :
    Tight (.dictEmpty opening colon closing) := by
  intro state ready
  have divided : (state.push (.bracket opening.token.position) .opening).step colon.token =
      some ((state.push (.bracket opening.token.position) .opening).expect
        (.emptyDict opening.token.position)) := by
    refine step_of_close (.inl rfl) ?_ ?_
    · simp only [State.beginOperand, colon.fits]
    · simp only [State.closeEmpty, colon.fits, State.push]
  refine .cons (step_bracket ready) (.cons divided (.one ?_))
  simp only [State.step, State.expect, closing.fits, State.push, State.pop]
  rfl

theorem Tight.dict {opening : Sign .openBracket} {entries : Derivation .pairs}
    {closing : Sign .closeBracket} (series : Runs entries) : Tight (.dict opening entries closing) := by
  intro state ready
  refine .cons (step_bracket ready) ?_
  obtain ⟨key, last, front, inner, leads, after, same⟩ :=
    series opening.token.position [] .opening (state.layer :: state.outer) (.inr (.inl rfl))
  obtain ⟨phrase, rfl, step⟩ := after.step (by rw [closing.fits]; rfl)
  have all : ((key, phrase.expr) :: front).reverse = entries.meaning := by
    rw [← same]
    simp
  refine leads.snoc ?_
  simp only [step, closing.fits, State.endExpression, after.context_eq.1, State.pop, after.context_eq.2, all]
  rfl

/-! Blocks and programs -/

theorem collects_program : Collects .program .separator .resumed := by
  intro state done phrase context
  simp [State.endExpression, context]

theorem collects_block (start : Position) (purpose : Purpose) :
    Collects (.block start purpose) .separator .resumed := by
  intro state done phrase context
  simp [State.endExpression, context]

/-- A separator before the first statement. -/
theorem leads_lead (lead : Option Separator) {context : Context} {outer : List Layer}
    (inside : context = .program [] ∨ ∃ start purpose, context = .block start purpose []) :
    ∃ mode, (mode = .opening ∨ mode = .resumed) ∧
      Leads ⟨.opening, ⟨context, []⟩, outer⟩ (optional lead) ⟨mode, ⟨context, []⟩, outer⟩ := by
  cases lead with
  | none => exact ⟨.opening, .inl rfl, .nil _⟩
  | some separator =>
    refine ⟨.resumed, .inr rfl, .one (step_of_close (.inl rfl) ?_ ?_)⟩
    · simp only [State.beginOperand, separator.fits]
    · rcases inside with rfl | ⟨start, purpose, rfl⟩ <;>
        simp only [State.closeEmpty, separator.fits, State.expect]

theorem Runs.empty (lead : Option Separator) : Runs (.empty lead) := by
  intro context outer _ inside
  obtain ⟨mode, fresh, leads⟩ := leads_lead lead inside
  exact ⟨[], _, leads, .inl ⟨mode, fresh, rfl, rfl⟩⟩

theorem Runs.filled {all : Derivation .statements} (lead trail : Option Separator) (series : Runs all) :
    Runs (.filled lead all trail) := by
  intro context outer collects inside
  obtain ⟨mode, fresh, leads⟩ := leads_lead lead inside
  obtain ⟨last, front, state, leads', after, same⟩ := series context [] mode outer collects (.inr fresh)
  have meant : all.meaning = (last :: front).reverse := by
    rw [← same]
    simp
  cases trail with
  | none =>
    refine ⟨front, state, ?_, .inr ⟨last, after, meant⟩⟩
    simpa [Derivation.tokens, optional] using leads.append leads'
  | some separator =>
    obtain ⟨phrase, rfl, step⟩ := after.step (by rw [separator.fits]; rfl)
    rw [separator.fits, collects state front phrase after.context_eq.1] at step
    refine ⟨phrase.expr :: front, _, (leads.append leads').snoc step, .inl ⟨.resumed, .inr rfl, ?_, meant⟩⟩
    rw [State.replace, after.context_eq.2]

theorem Runs.block {opening : Sign .openBrace} {body : Derivation .body} {closing : Sign .closeBrace}
    (inside : Runs body) : Runs (.block opening body closing) := by
  intro state purpose
  obtain ⟨done, inner, leads, ended⟩ := inside (.block opening.token.position purpose)
    (state.layer :: state.outer) (collects_block _ _) (.inr ⟨_, _, rfl⟩)
  refine leads.snoc ?_
  rcases ended with ⟨mode, fresh, rfl, meant⟩ | ⟨last, after, meant⟩
  · refine step_of_close fresh (by simp only [State.beginOperand, closing.fits]) ?_
    have closes : State.closeEmpty ⟨mode, ⟨.block opening.token.position purpose done, []⟩,
        state.layer :: state.outer⟩ closing.token = State.closeBlock ⟨mode,
          ⟨.block opening.token.position purpose done, []⟩, state.layer :: state.outer⟩
          opening.token.position purpose done.reverse := by
      rcases fresh with rfl | rfl <;> simp only [State.closeEmpty, closing.fits]
    rw [closes, closeBlock_eq, ← meant]
    rfl
  · obtain ⟨phrase, rfl, step⟩ := after.step (by rw [closing.fits]; rfl)
    obtain ⟨waiting, operand, rfl, _⟩ := after
    simp only [step, closing.fits, State.endExpression, closeBlock_eq, ← meant]
    rfl

/-! Conditionals, loops and functions -/

theorem block_head (derivation : Derivation (.tier .block)) :
    ∃ opening : Sign .openBrace, derivation.tokens = opening.token :: derivation.tokens.tail ∧
      derivation.start = opening.token.position ∧ derivation.ending [] = .closed := by
  cases derivation with
  | block opening _ _ => exact ⟨opening, rfl, rfl, rfl⟩
  | pass rule _ | join rule _ _ _ => cases rule

theorem conditional_head (derivation : Derivation (.tier .conditional)) :
    ∃ word : Word .kwIf, derivation.tokens = word.token :: derivation.tokens.tail ∧
      derivation.start = word.token.position := by
  cases derivation with
  | ifOnly word _ _ | ifElse word _ _ _ _ | ifChain word _ _ _ _ => exact ⟨word, rfl, rfl⟩
  | pass rule _ | join rule _ _ _ => cases rule

/-- A block that is read whole once it is known where its brace leads. -/
theorem Runs.leads_block {derivation : Derivation (.tier .block)} (runs : Runs derivation) {inner : State}
    (state : State) (purpose : Purpose) (opens : ∀ opening : Sign .openBrace, opening.token.position = derivation.start →
      inner.step opening.token = some (state.push (.block derivation.start purpose []) .opening)) :
    Leads inner derivation.tokens
      (state.expect (.operator (closedBlock derivation.expr derivation.start purpose))) := by
  obtain ⟨opening, tokens, start, _⟩ := block_head derivation
  rw [tokens]
  exact .cons (opens opening start.symm) (runs state purpose)

/-- The brace after a whole condition or source. -/
theorem After.step_brace {context : Context} {outer : List Layer} {expr : Expr} {state : State}
    (after : After context outer expr state) (opening : Sign .openBrace) :
    ∃ phrase, phrase.expr = expr ∧ state.step opening.token = state.openBody phrase opening.token := by
  obtain ⟨waiting, operand, rfl, settled⟩ := after
  refine ⟨_, settled, ?_⟩
  simp only [State.step, State.continueOperand, opening.fits]
  rfl

/-- A condition and the block that it guards, anywhere in a chain of conditions. -/
theorem leads_branch {condition : Derivation (.tier .expression)} {yes : Derivation (.tier .block)}
    (first : Loose condition) (second : Runs yes) (state : State) (head start : Position)
    (outer : List Branch) :
    let branches := ⟨start, condition.expr, yes.expr⟩ :: outer
    Leads (state.push (.condition head start outer) .operand) (condition.tokens ++ yes.tokens)
      (state.give (chain branches (.block .absent [])) head (.branches branches)) := by
  obtain ⟨inner, leads, after⟩ :=
    first.whole (.condition head start outer) (state.layer :: state.outer) (.inl rfl)
  refine leads.append (second.leads_block state (.branch head start condition.expr outer) ?_)
  intro opening position
  obtain ⟨phrase, same, step⟩ := after.step_brace opening
  rw [step]
  simp only [State.openBody, after.context_eq.1, State.replace, after.context_eq.2, same, position]
  rfl

theorem step_else {state : State} {expr : Expr} {head : Position} {branches : List Branch}
    {otherwise : Word .kwElse} :
    (state.give expr head (.branches branches)).step otherwise.token =
      some (state.expect (.lastResort head branches)) := by
  simp only [State.step, State.give, State.expect, State.continueOperand, otherwise.fits]

theorem Runs.ifOnly {word : Word .kwIf} {condition : Derivation (.tier .expression)}
    {yes : Derivation (.tier .block)} (first : Loose condition) (second : Runs yes) :
    Runs (.ifOnly word condition yes) :=
  fun state head outer => leads_branch first second state head word.token.position outer

theorem Runs.ifElse {word : Word .kwIf} {condition : Derivation (.tier .expression)}
    {yes no : Derivation (.tier .block)} {otherwise : Word .kwElse} (first : Loose condition)
    (second : Runs yes) (third : Runs no) : Runs (.ifElse word condition yes otherwise no) := by
  intro state head outer
  have guarded := leads_branch first second state head word.token.position outer
  refine guarded.append (.cons step_else (third.leads_block state
    (.lastResort head (⟨word.token.position, condition.expr, yes.expr⟩ :: outer)) ?_))
  intro opening position
  simp only [State.step, State.expect, opening.fits, position]
  rfl

theorem Runs.ifChain {word : Word .kwIf} {condition : Derivation (.tier .expression)}
    {yes : Derivation (.tier .block)} {otherwise : Word .kwElse} {no : Derivation (.tier .conditional)}
    (first : Loose condition) (second : Runs yes) (third : Runs no) :
    Runs (.ifChain word condition yes otherwise no) := by
  intro state head outer
  have guarded := leads_branch first second state head word.token.position outer
  obtain ⟨next, tokens, start⟩ := conditional_head no
  refine guarded.append (.cons step_else ?_)
  rw [tokens]
  refine .cons ?_ (third state head (⟨word.token.position, condition.expr, yes.expr⟩ :: outer))
  simp only [State.step, State.expect, next.fits, start]
  rfl

theorem Tight.loop {word : Word .kwFor} {item : Leaf .name} {among : Word .kwIn}
    {source : Derivation (.tier .expression)} {body : Derivation (.tier .block)} (first : Loose source)
    (second : Runs body) : Tight (.loop word item among source body) := by
  intro state ready
  have begins : state.step word.token = some (state.expect (.loopItem word.token.position)) :=
    step_of_begin ready (by simp [State.beginOperand, word.fits])
  have named : (state.expect (.loopItem word.token.position)).step item.token =
      some (state.expect (.loopIn word.token.position item.token.text)) := by
    simp only [State.step, State.expect, item.fits]
  have entered : (state.expect (.loopIn word.token.position item.token.text)).step among.token =
      some (state.push (.source word.token.position item.token.text) .operand) := by
    simp only [State.step, State.expect, among.fits]
    rfl
  obtain ⟨inner, leads, after⟩ :=
    first.whole (.source word.token.position item.token.text) (state.layer :: state.outer) (.inl rfl)
  refine .cons begins (.cons named (.cons entered (leads.append
    (second.leads_block state (.loop word.token.position item.token.text source.expr) ?_))))
  intro opening position
  obtain ⟨phrase, same, step⟩ := after.step_brace opening
  rw [step]
  simp only [State.openBody, after.context_eq.1, State.replace, after.context_eq.2, same, position]
  rfl

theorem leads_functionHead {state : State} {word : Word .kwFn} {name : Leaf .name} {opening : Sign .openParen}
    (ready : Ready state.mode) : Leads state [word.token, name.token, opening.token]
      (state.expect (.firstParameter word.token.position name.token.text)) := by
  have begins : state.step word.token = some (state.expect (.functionName word.token.position)) :=
    step_of_begin ready (by simp [State.beginOperand, word.fits])
  have named : (state.expect (.functionName word.token.position)).step name.token =
      some (state.expect (.functionParen word.token.position name.token.text)) := by
    simp only [State.step, State.expect, name.fits]
  refine .cons begins (.cons named (.one ?_))
  simp only [State.step, State.expect, opening.fits]

theorem Runs.leads_functionBody {body : Derivation (.tier .block)} (runs : Runs body) {state : State}
    {start : Position} {name : String} {parameters : List String} :
    Leads (state.expect (.functionBody start name parameters)) body.tokens
      (state.give (.function (.spot start) name parameters body.expr) start .closed) := by
  refine runs.leads_block state (.function start name parameters) ?_
  intro opening position
  simp only [State.step, State.expect, opening.fits, position]
  rfl

theorem Tight.functionEmpty {word : Word .kwFn} {name : Leaf .name} {opening : Sign .openParen}
    {closing : Sign .closeParen} {body : Derivation (.tier .block)} (runs : Runs body) :
    Tight (.functionEmpty word name opening closing body) := by
  intro state ready
  refine (leads_functionHead ready).append (.cons ?_ runs.leads_functionBody)
  simp only [State.step, State.expect, closing.fits]

theorem Tight.function {word : Word .kwFn} {name : Leaf .name} {opening : Sign .openParen}
    {parameters : Derivation .parameters} {closing : Sign .closeParen} {body : Derivation (.tier .block)}
    (named : Runs parameters) (runs : Runs body) :
    Tight (.function word name opening parameters closing body) := by
  intro state ready
  refine (leads_functionHead ready).append ((named state _ _).append (.cons ?_ runs.leads_functionBody))
  simp only [State.step, State.expect, closing.fits, List.reverse_reverse]

theorem Runs.oneParameter {only : Leaf .name} : Runs (.oneParameter only) := by
  intro state start name
  refine .one ?_
  simp only [State.step, State.expect, only.fits]
  rfl

theorem Runs.moreParameters {front : Derivation .parameters} {comma : Sign .comma} {last : Leaf .name}
    (before : Runs front) : Runs (.moreParameters front comma last) := by
  intro state start name
  have divided : (state.expect (.parameterEnd start name front.meaning.reverse)).step comma.token =
      some (state.expect (.parameter start name front.meaning.reverse)) := by
    simp only [State.step, State.expect, comma.fits]
  refine (before state start name).append (.cons divided (.one ?_))
  simp only [State.step, State.expect, last.fits, Derivation.meaning, List.reverse_append,
    List.reverse_singleton, List.singleton_append]

/-! All derivations -/

theorem Runs.pass {outer inner : Tier} {inside : Derivation (.tier inner)} (rule : Passes outer inner)
    (runs : Runs inside) : Runs (.pass rule inside) := by
  cases rule with
  | operand => exact Loose.pass .operand (Tight.loose runs)
  | atom | loop | function => exact runs
  | block =>
    intro state ready
    obtain ⟨_, _, _, closed⟩ := block_head inside
    have read : Leads state inside.tokens (state.give inside.expr inside.start .closed) := by
      refine Runs.leads_block runs state .plain ?_
      intro opening position
      exact step_of_begin ready (by simp [State.beginOperand, opening.fits, position])
    rwa [← closed] at read
  | conditional =>
    intro state ready
    obtain ⟨word, tokens, start⟩ := conditional_head inside
    have begins : state.step word.token = some (state.push (.condition inside.start inside.start []) .operand) :=
      step_of_begin ready (by simp [State.beginOperand, word.fits, start])
    have leads := Leads.cons begins (runs state inside.start [])
    rwa [← tokens] at leads
  | disjunction | conjunction | negation | comparison | concatenation | range | sum | product | unary =>
    exact Loose.pass _ runs

theorem Runs.join {tier before after : Tier} {kind : Token.Kind} {joint : Joint}
    {left : Derivation (.tier before)} {sign : Leaf kind} {right : Derivation (.tier after)}
    (rule : Binary tier before kind after joint) (first : Runs left) (second : Runs right) :
    Runs (.join rule left sign right) := by
  cases rule <;> exact Loose.join _ first second

theorem runs {category : Category} (derivation : Derivation category) : Runs derivation := by
  induction derivation with
  | empty lead => exact .empty lead
  | filled lead all trail series => exact .filled lead trail series
  | oneStatement only loose => exact runsSeries_one loose
  | moreStatements front separator last before loose =>
    exact RunsSeries.more before separator.fits rfl (.inr (.inr rfl)) loose
  | pass rule inside inner => exact .pass rule inner
  | assign name sign value loose => exact Loose.assign loose
  | store target opening index closing sign value first second third => exact Loose.store first second third
  | join rule left sign right first second => exact .join rule first second
  | negate word operand loose => exact Loose.negate loose
  | negativeInt sign digits => exact Loose.negative .int
  | negativeFloat sign digits => exact Loose.negative .float
  | subscript target opening index closing first second => exact Tight.subscript first second
  | int leaf => exact Tight.int
  | float leaf => exact Tight.float
  | string leaf => exact Tight.string
  | truth word => exact Tight.truth
  | falsity word => exact Tight.falsity
  | nothing word => exact Tight.nothing
  | identifier leaf => exact Tight.identifier
  | callEmpty name opening closing => exact Tight.callEmpty
  | call name opening arguments closing series => exact Tight.call series
  | printEmpty newline word opening closing => exact Tight.printEmpty
  | print newline word opening shown closing loose => exact Tight.print loose
  | group opening inside closing loose => exact Tight.group loose
  | listEmpty opening closing => exact Tight.listEmpty
  | list opening elements closing series => exact Tight.list series
  | dictEmpty opening colon closing => exact Tight.dictEmpty
  | dict opening entries closing series => exact Tight.dict series
  | oneItem only loose => exact runsSeries_one loose
  | moreItems front comma last before loose => exact RunsSeries.more before comma.fits rfl (.inl rfl) loose
  | onePair key colon value first second => exact .onePair first second
  | morePairs front comma key colon value before first second => exact .morePairs before first second
  | block opening body closing inside => exact .block inside
  | ifOnly word condition yes first second => exact .ifOnly first second
  | ifElse word condition yes otherwise no first second third => exact .ifElse first second third
  | ifChain word condition yes otherwise no first second third => exact .ifChain first second third
  | loop word item among source body first second => exact Tight.loop first second
  | functionEmpty word name opening closing body inside => exact Tight.functionEmpty inside
  | function word name opening parameters closing body named inside => exact Tight.function named inside
  | oneParameter only => exact .oneParameter
  | moreParameters front comma last before => exact .moreParameters before

/-- What the grammar derives is read as a program, with the tree that it stands for. -/
theorem ofSplit_of_derivation (derivation : Derivation .body) :
    ofSplit ⟨derivation.tokens, none⟩ = .ok derivation.program := by
  obtain ⟨done, state, leads, ended⟩ := runs derivation .program [] collects_program (.inl rfl)
  have finished : state.finish = some derivation.meaning := by
    rcases ended with ⟨mode, fresh, rfl, meant⟩ | ⟨last, ⟨waiting, operand, rfl, settled⟩, meant⟩
    · rcases fresh with rfl | rfl <;> simp only [State.finish, meant]
    · simp only [State.finish, State.settled, settled, meant]
  have advanced : advance .initial derivation.tokens = .ok state := leads
  simp only [ofSplit, advanced, finished, Derivation.program]

end Corvid.Grammar
