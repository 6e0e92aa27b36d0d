import Corvid.Parser.Step

/-!
What one token can do, case by case. A step is chosen by the mode, the context and the kind of the token; here every way
to a next state has a name, with what was found on that way. What holds of all steps is proved by these names, and in
whatever order a step looks at its cases.
-/
namespace Corvid.Parser

/-- The ways to begin an operand. -/
inductive BeginCase (state : State) (token : Token) : State → Prop where
  | int (kind : token.kind = .int) :
      BeginCase state token (state.give (.literal token.mark .int token.text) token.position .closed)
  | float (kind : token.kind = .float) :
      BeginCase state token (state.give (.literal token.mark .float token.text) token.position .closed)
  | string (kind : token.kind = .string) :
      BeginCase state token (state.give (.literal token.mark .string token.text) token.position .closed)
  | name (kind : token.kind = .name) :
      BeginCase state token (state.give (.name token.mark token.text) token.position (.name token.text))
  | truth (kind : token.kind = .keyword .kwTrue) :
      BeginCase state token (state.give (.literal token.mark .bool "true") token.position .closed)
  | falsity (kind : token.kind = .keyword .kwFalse) :
      BeginCase state token (state.give (.literal token.mark .bool "false") token.position .closed)
  | nothing (kind : token.kind = .keyword .kwNone) :
      BeginCase state token (state.give (.none token.mark) token.position .closed)
  | print (kind : token.kind = .keyword .kwPrint) :
      BeginCase state token (state.expect (.printParen token.position false))
  | println (kind : token.kind = .keyword .kwPrintln) :
      BeginCase state token (state.expect (.printParen token.position true))
  | conditional (kind : token.kind = .keyword .kwIf) :
      BeginCase state token (state.push (.condition token.position token.position []) .operand)
  | loop (kind : token.kind = .keyword .kwFor) : BeginCase state token (state.expect (.loopItem token.position))
  | function (kind : token.kind = .keyword .kwFn) :
      BeginCase state token (state.expect (.functionName token.position))
  | negate (kind : token.kind = .keyword .kwNot) (looser : looserThan 3 state.layer.waiting = true) :
      BeginCase state token (state.wait (.negate token.position))
  | minus (kind : token.kind = .symbol .minus) : BeginCase state token (state.expect (.number token.position))
  | group (kind : token.kind = .symbol .openParen) :
      BeginCase state token (state.push (.group token.position) .operand)
  | bracket (kind : token.kind = .symbol .openBracket) :
      BeginCase state token (state.push (.bracket token.position) .opening)
  | block (kind : token.kind = .symbol .openBrace) :
      BeginCase state token (state.push (.block token.position .plain []) .opening)

/-- The ways to end a construct before anything stands in it, or a block after a separator. -/
inductive CloseCase (state : State) (token : Token) : State → Prop where
  | programLead {done : List Expr} (mode : state.mode = .opening) (context : state.layer.context = .program done)
      (kind : token.kind = .separator) : CloseCase state token (state.expect .resumed)
  | blockLead {start : Position} {purpose : Purpose} {done : List Expr} (mode : state.mode = .opening)
      (context : state.layer.context = .block start purpose done) (kind : token.kind = .separator) :
      CloseCase state token (state.expect .resumed)
  | block {start : Position} {purpose : Purpose} {done : List Expr} {next : State}
      (context : state.layer.context = .block start purpose done) (kind : token.kind = .symbol .closeBrace)
      (closes : state.closeBlock start purpose done.reverse = some next) : CloseCase state token next
  | list {start : Position} {next : State} (mode : state.mode = .opening)
      (context : state.layer.context = .bracket start) (kind : token.kind = .symbol .closeBracket)
      (pops : state.pop (.list (.spot start) []) start .closed = some next) : CloseCase state token next
  | dict {start : Position} (mode : state.mode = .opening) (context : state.layer.context = .bracket start)
      (kind : token.kind = .symbol .colon) : CloseCase state token (state.expect (.emptyDict start))
  | call {start : Position} {name : String} {done : List Expr} {next : State} (mode : state.mode = .opening)
      (context : state.layer.context = .arguments start name done) (kind : token.kind = .symbol .closeParen)
      (pops : state.pop (.call (.spot start) name done.reverse) start .closed = some next) : CloseCase state token next
  | print {start : Position} {newline : Bool} {next : State} (mode : state.mode = .opening)
      (context : state.layer.context = .print start newline) (kind : token.kind = .symbol .closeParen)
      (pops : state.pop (.print (.spot start) (.none .absent) newline) start .closed = some next) :
      CloseCase state token next

/-- The ways to divide or end a construct after a whole expression. -/
inductive EndCase (state : State) (expr : Expr) (kind : Token.Kind) : State → Prop where
  | statement {done : List Expr} (context : state.layer.context = .program done) (found : kind = .separator) :
      EndCase state expr kind (state.replace (.program (expr :: done)) .resumed)
  | blockStatement {start : Position} {purpose : Purpose} {done : List Expr}
      (context : state.layer.context = .block start purpose done) (found : kind = .separator) :
      EndCase state expr kind (state.replace (.block start purpose (expr :: done)) .resumed)
  | block {start : Position} {purpose : Purpose} {done : List Expr} {next : State}
      (context : state.layer.context = .block start purpose done) (found : kind = .symbol .closeBrace)
      (closes : state.closeBlock start purpose (expr :: done).reverse = some next) : EndCase state expr kind next
  | group {start : Position} {next : State} (context : state.layer.context = .group start)
      (found : kind = .symbol .closeParen) (pops : state.pop expr start .closed = some next) :
      EndCase state expr kind next
  | subscript {target : Phrase} {next : State} (context : state.layer.context = .subscript target)
      (found : kind = .symbol .closeBracket)
      (pops : state.pop (.subscript (.spot target.start) target.expr expr) target.start
        (.subscript target.expr expr) = some next) : EndCase state expr kind next
  | firstItem {start : Position} (context : state.layer.context = .bracket start) (found : kind = .symbol .comma) :
      EndCase state expr kind (state.replace (.list start [expr]) .operand)
  | onlyItem {start : Position} {next : State} (context : state.layer.context = .bracket start)
      (found : kind = .symbol .closeBracket)
      (pops : state.pop (.list (.spot start) [expr]) start .closed = some next) : EndCase state expr kind next
  | firstKey {start : Position} (context : state.layer.context = .bracket start) (found : kind = .symbol .colon) :
      EndCase state expr kind (state.replace (.entry start [] expr) .operand)
  | item {start : Position} {done : List Expr} (context : state.layer.context = .list start done)
      (found : kind = .symbol .comma) : EndCase state expr kind (state.replace (.list start (expr :: done)) .operand)
  | lastItem {start : Position} {done : List Expr} {next : State} (context : state.layer.context = .list start done)
      (found : kind = .symbol .closeBracket)
      (pops : state.pop (.list (.spot start) (expr :: done).reverse) start .closed = some next) :
      EndCase state expr kind next
  | key {start : Position} {done : List (Expr × Expr)} (context : state.layer.context = .key start done)
      (found : kind = .symbol .colon) : EndCase state expr kind (state.replace (.entry start done expr) .operand)
  | pair {start : Position} {done : List (Expr × Expr)} {key : Expr}
      (context : state.layer.context = .entry start done key) (found : kind = .symbol .comma) :
      EndCase state expr kind (state.replace (.key start ((key, expr) :: done)) .operand)
  | lastPair {start : Position} {done : List (Expr × Expr)} {key : Expr} {next : State}
      (context : state.layer.context = .entry start done key) (found : kind = .symbol .closeBracket)
      (pops : state.pop (.dict (.spot start) ((key, expr) :: done).reverse) start .closed = some next) :
      EndCase state expr kind next
  | argument {start : Position} {name : String} {done : List Expr}
      (context : state.layer.context = .arguments start name done) (found : kind = .symbol .comma) :
      EndCase state expr kind (state.replace (.arguments start name (expr :: done)) .operand)
  | lastArgument {start : Position} {name : String} {done : List Expr} {next : State}
      (context : state.layer.context = .arguments start name done) (found : kind = .symbol .closeParen)
      (pops : state.pop (.call (.spot start) name (expr :: done).reverse) start .closed = some next) :
      EndCase state expr kind next
  | print {start : Position} {newline : Bool} {next : State} (context : state.layer.context = .print start newline)
      (found : kind = .symbol .closeParen)
      (pops : state.pop (.print (.spot start) expr newline) start .closed = some next) : EndCase state expr kind next

/-- The ways to open the block after a whole expression. -/
inductive BodyCase (state : State) (expr : Expr) (token : Token) : State → Prop where
  | branch {head start : Position} {outer : List Branch} (context : state.layer.context = .condition head start outer) :
      BodyCase state expr token (state.replace (.block token.position (.branch head start expr outer) []) .opening)
  | loop {start : Position} {item : String} (context : state.layer.context = .source start item) :
      BodyCase state expr token (state.replace (.block token.position (.loop start item expr) []) .opening)

/-- The ways to go on after an operand. -/
inductive ContinueCase (state : State) (operand : Operand) (token : Token) : State → Prop where
  | subscript (kind : token.kind = .symbol .openBracket) (unsigned : operand.ending ≠ .signed) :
      ContinueCase state operand token (state.push (.subscript operand.toPhrase) .operand)
  | call {text : String} (kind : token.kind = .symbol .openParen) (ending : operand.ending = .name text) :
      ContinueCase state operand token (state.push (.arguments operand.start text []) .opening)
  | assign {text : String} (kind : token.kind = .symbol .assign) (ending : operand.ending = .name text)
      (looser : looserThan 0 state.layer.waiting = true) :
      ContinueCase state operand token (state.wait (.assign operand.start text))
  | store {target index : Expr} (kind : token.kind = .symbol .assign)
      (ending : operand.ending = .subscript target index) (looser : looserThan 0 state.layer.waiting = true) :
      ContinueCase state operand token (state.wait (.store operand.start target index))
  | otherwise {branches : List Branch} (kind : token.kind = .keyword .kwElse)
      (ending : operand.ending = .branches branches) :
      ContinueCase state operand token (state.expect (.lastResort operand.start branches))
  | body {next : State} (kind : token.kind = .symbol .openBrace)
      (opens : state.openBody (state.settled operand) token = some next) : ContinueCase state operand token next
  | join {joint : Joint} {next : State} (joins : token.kind.joint? = some joint)
      (joined : state.joinWith operand joint = some next) : ContinueCase state operand token next
  | ends {next : State} (ends : state.endExpression (state.settled operand) token.kind = some next) :
      ContinueCase state operand token next

/-- The ways to read a token. -/
inductive StepCase (state : State) (token : Token) : State → Prop where
  | begins {next : State} (mode : state.mode = .operand ∨ state.mode = .opening ∨ state.mode = .resumed)
      (begins : state.beginOperand token = some next) : StepCase state token next
  | closes {next : State} (mode : state.mode = .opening ∨ state.mode = .resumed)
      (closes : state.closeEmpty token = some next) : StepCase state token next
  | continues {operand : Operand} {next : State} (mode : state.mode = .operator operand)
      (continues : state.continueOperand operand token = some next) : StepCase state token next
  | negativeInt {start : Position} (mode : state.mode = .number start) (kind : token.kind = .int) :
      StepCase state token (state.give (.literal (.spot start) .int ("-" ++ token.text)) start .signed)
  | negativeFloat {start : Position} (mode : state.mode = .number start) (kind : token.kind = .float) :
      StepCase state token (state.give (.literal (.spot start) .float ("-" ++ token.text)) start .signed)
  | print {start : Position} {newline : Bool} (mode : state.mode = .printParen start newline)
      (kind : token.kind = .symbol .openParen) : StepCase state token (state.push (.print start newline) .opening)
  | emptyDict {start : Position} {next : State} (mode : state.mode = .emptyDict start)
      (kind : token.kind = .symbol .closeBracket) (pops : state.pop (.dict (.spot start) []) start .closed = some next) :
      StepCase state token next
  | lastBlock {head : Position} {branches : List Branch} (mode : state.mode = .lastResort head branches)
      (kind : token.kind = .symbol .openBrace) :
      StepCase state token (state.push (.block token.position (.lastResort head branches) []) .opening)
  | elseIf {head : Position} {branches : List Branch} (mode : state.mode = .lastResort head branches)
      (kind : token.kind = .keyword .kwIf) :
      StepCase state token (state.push (.condition head token.position branches) .operand)
  | loopItem {start : Position} (mode : state.mode = .loopItem start) (kind : token.kind = .name) :
      StepCase state token (state.expect (.loopIn start token.text))
  | loopIn {start : Position} {item : String} (mode : state.mode = .loopIn start item)
      (kind : token.kind = .keyword .kwIn) : StepCase state token (state.push (.source start item) .operand)
  | functionName {start : Position} (mode : state.mode = .functionName start) (kind : token.kind = .name) :
      StepCase state token (state.expect (.functionParen start token.text))
  | functionParen {start : Position} {name : String} (mode : state.mode = .functionParen start name)
      (kind : token.kind = .symbol .openParen) : StepCase state token (state.expect (.firstParameter start name))
  | firstParameter {start : Position} {name : String} (mode : state.mode = .firstParameter start name)
      (kind : token.kind = .name) : StepCase state token (state.expect (.parameterEnd start name [token.text]))
  | noParameter {start : Position} {name : String} (mode : state.mode = .firstParameter start name)
      (kind : token.kind = .symbol .closeParen) : StepCase state token (state.expect (.functionBody start name []))
  | parameter {start : Position} {name : String} {done : List String} (mode : state.mode = .parameter start name done)
      (kind : token.kind = .name) :
      StepCase state token (state.expect (.parameterEnd start name (token.text :: done)))
  | comma {start : Position} {name : String} {done : List String} (mode : state.mode = .parameterEnd start name done)
      (kind : token.kind = .symbol .comma) : StepCase state token (state.expect (.parameter start name done))
  | lastParameter {start : Position} {name : String} {done : List String}
      (mode : state.mode = .parameterEnd start name done) (kind : token.kind = .symbol .closeParen) :
      StepCase state token (state.expect (.functionBody start name done.reverse))
  | functionBody {start : Position} {name : String} {parameters : List String}
      (mode : state.mode = .functionBody start name parameters) (kind : token.kind = .symbol .openBrace) :
      StepCase state token (state.push (.block token.position (.function start name parameters) []) .opening)

/-- The ways for a program to end. -/
inductive FinishCase (state : State) : List Expr → Prop where
  | ended {done : List Expr} (outermost : state.outer = []) (context : state.layer.context = .program done)
      (mode : state.mode = .opening ∨ state.mode = .resumed) : FinishCase state done.reverse
  | last {done : List Expr} {operand : Operand} (outermost : state.outer = [])
      (context : state.layer.context = .program done) (mode : state.mode = .operator operand) :
      FinishCase state ((state.settled operand).expr :: done).reverse

section Cases

variable {state next : State} {operand : Operand} {phrase : Phrase} {kind : Token.Kind} {token : Token}

-- Each branch below is closed by the one case that fits what was found on it, so the branches may come in any order.

theorem beginOperand_cases (begins : state.beginOperand token = some next) : BeginCase state token next := by
  unfold State.beginOperand at begins
  dsimp only at begins
  split at begins
  all_goals first
    | (cases begins; constructor; assumption)
    | (obtain ⟨looser, same⟩ := Option.ite_none_right_eq_some.mp begins; cases same; exact .negate ‹_› looser)
    | cases begins

theorem closeEmpty_cases (closes : state.closeEmpty token = some next) : CloseCase state token next := by
  unfold State.closeEmpty at closes
  split at closes
  all_goals first
    | (cases closes; exact .programLead ‹_› ‹_› ‹_›)
    | (cases closes; exact .blockLead ‹_› ‹_› ‹_›)
    | (cases closes; exact .dict ‹_› ‹_› ‹_›)
    | exact .block ‹_› ‹_› closes
    | exact .list ‹_› ‹_› ‹_› closes
    | exact .call ‹_› ‹_› ‹_› closes
    | exact .print ‹_› ‹_› ‹_› closes
    | cases closes

theorem endExpression_cases (ends : state.endExpression phrase kind = some next) :
    EndCase state phrase.expr kind next := by
  unfold State.endExpression at ends
  dsimp only at ends
  split at ends
  all_goals first
    | (cases ends; exact .statement ‹_› rfl)
    | (cases ends; exact .blockStatement ‹_› rfl)
    | (cases ends; exact .firstItem ‹_› rfl)
    | (cases ends; exact .firstKey ‹_› rfl)
    | (cases ends; exact .item ‹_› rfl)
    | (cases ends; exact .key ‹_› rfl)
    | (cases ends; exact .pair ‹_› rfl)
    | (cases ends; exact .argument ‹_› rfl)
    | exact .block ‹_› rfl ends
    | exact .group ‹_› rfl ends
    | exact .subscript ‹_› rfl ends
    | exact .onlyItem ‹_› rfl ends
    | exact .lastItem ‹_› rfl ends
    | exact .lastPair ‹_› rfl ends
    | exact .lastArgument ‹_› rfl ends
    | exact .print ‹_› rfl ends
    | cases ends

theorem openBody_cases (opens : state.openBody phrase token = some next) : BodyCase state phrase.expr token next := by
  unfold State.openBody at opens
  split at opens
  all_goals first
    | (cases opens; constructor; assumption)
    | cases opens

/-- A token that has no meaning of its own after an operand is an operator or ends the expression. -/
theorem continueCase_of_other
    (continues : (match token.kind.joint? with
      | some joint => state.joinWith operand joint
      | none => state.endExpression (state.settled operand) token.kind) = some next) :
    ContinueCase state operand token next := by
  cases joins : token.kind.joint? with
  | some joint =>
    rw [joins] at continues
    exact .join joins continues
  | none =>
    rw [joins] at continues
    exact .ends continues

theorem continueOperand_cases (continues : state.continueOperand operand token = some next) :
    ContinueCase state operand token next := by
  unfold State.continueOperand at continues
  split at continues
  all_goals first
    | (cases continues; exact .subscript ‹_› ‹_›)
    | (cases continues; exact .call ‹_› ‹_›)
    | (obtain ⟨looser, same⟩ := Option.ite_none_right_eq_some.mp continues
       cases same
       first | exact .assign ‹_› ‹_› looser | exact .store ‹_› ‹_› looser)
    | (cases continues; exact .otherwise ‹_› ‹_›)
    | exact .body ‹_› continues
    | exact continueCase_of_other continues
    | cases continues

/-- Where a construct may still be empty, a token begins an operand or ends the construct. -/
theorem stepCase_of_fresh (mode : state.mode = .opening ∨ state.mode = .resumed)
    (steps : (state.beginOperand token).or (state.closeEmpty token) = some next) : StepCase state token next := by
  rcases Option.or_eq_some_iff.mp steps with begins | ⟨-, closes⟩
  · exact .begins (.inr mode) begins
  · exact .closes mode closes

theorem step_cases (steps : state.step token = some next) : StepCase state token next := by
  unfold State.step at steps
  split at steps
  all_goals first
    | exact stepCase_of_fresh (.inl ‹_›) steps
    | exact stepCase_of_fresh (.inr ‹_›) steps
    | exact .begins (.inl ‹_›) steps
    | exact .continues ‹_› steps
    | exact .emptyDict ‹_› ‹_› steps
    | (cases steps; exact .negativeInt ‹_› ‹_›)
    | (cases steps; exact .negativeFloat ‹_› ‹_›)
    | (cases steps; exact .print ‹_› ‹_›)
    | (cases steps; exact .lastBlock ‹_› ‹_›)
    | (cases steps; exact .elseIf ‹_› ‹_›)
    | (cases steps; exact .loopItem ‹_› ‹_›)
    | (cases steps; exact .loopIn ‹_› ‹_›)
    | (cases steps; exact .functionName ‹_› ‹_›)
    | (cases steps; exact .functionParen ‹_› ‹_›)
    | (cases steps; exact .firstParameter ‹_› ‹_›)
    | (cases steps; exact .noParameter ‹_› ‹_›)
    | (cases steps; exact .parameter ‹_› ‹_›)
    | (cases steps; exact .comma ‹_› ‹_›)
    | (cases steps; exact .lastParameter ‹_› ‹_›)
    | (cases steps; exact .functionBody ‹_› ‹_›)
    | cases steps

theorem finish_cases {body : List Expr} (finishes : state.finish = some body) : FinishCase state body := by
  unfold State.finish at finishes
  split at finishes
  all_goals first
    | (cases finishes; exact .ended ‹_› ‹_› (.inl ‹_›))
    | (cases finishes; exact .ended ‹_› ‹_› (.inr ‹_›))
    | (cases finishes; exact .last ‹_› ‹_› ‹_›)
    | cases finishes

end Cases

end Corvid.Parser
