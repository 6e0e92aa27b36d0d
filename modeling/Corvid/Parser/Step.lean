import Corvid.Parser.State

/-!
One token of reading. `step` gives the next state, or none where the token cannot come next.
-/
namespace Corvid.Parser

namespace Waiting

def level : Waiting → Nat
  | assign .. | store .. => 0
  | negate .. => 3
  | join _ joint _ => joint.level

/-- Gives an operator its right operand. -/
def complete (operator : Waiting) (right : Expr) : Phrase :=
  match operator with
  | assign start name => ⟨.assign (.spot start) name right, start⟩
  | store start target index => ⟨.store (.spot start) target index right, start⟩
  | negate start => ⟨.negate (.spot start) right, start⟩
  | join start joint left => ⟨.join (.spot start) joint left right, start⟩

end Waiting

/-- Completes the waiting operators that bind at least as tightly as `level`. -/
def settle (level : Nat) : List Waiting → Phrase → List Waiting × Phrase
  | [], phrase => ([], phrase)
  | operator :: rest, phrase =>
    if level ≤ operator.level then settle level rest (operator.complete phrase.expr)
    else (operator :: rest, phrase)

/-- Whether every waiting operator binds no tighter than `level`. -/
def looserThan (level : Nat) : List Waiting → Bool
  | [] => true
  | operator :: _ => operator.level ≤ level

namespace State

def expect (state : State) (mode : Mode) : State := { state with mode }

/-- Opens a construct inside the present one. -/
def push (state : State) (context : Context) (mode : Mode) : State :=
  ⟨mode, ⟨context, []⟩, state.layer :: state.outer⟩

/-- Replaces the present construct by one that follows it, such as a body after its condition. -/
def replace (state : State) (context : Context) (mode : Mode) : State :=
  ⟨mode, ⟨context, []⟩, state.outer⟩

/-- An operand has been read. -/
def give (state : State) (expr : Expr) (start : Position) (ending : Ending) : State :=
  state.expect (.operator ⟨⟨expr, start⟩, ending⟩)

/-- Closes the present construct, which is an operand of the one around it. -/
def pop (state : State) (expr : Expr) (start : Position) (ending : Ending) : Option State :=
  match state.outer with
  | [] => none
  | layer :: outer => some ⟨.operator ⟨⟨expr, start⟩, ending⟩, layer, outer⟩

def wait (state : State) (operator : Waiting) : State :=
  { state with mode := .operand, layer := { state.layer with waiting := operator :: state.layer.waiting } }

/-- The expression that has been read since the present construct was opened or last divided. -/
def settled (state : State) (operand : Operand) : Phrase :=
  (settle 0 state.layer.waiting operand.toPhrase).2

/-- Closes a block: what becomes of it is its purpose. -/
def closeBlock (state : State) (start : Position) (purpose : Purpose) (body : List Expr) : Option State :=
  let block := Expr.block (.spot start) body
  match purpose with
  | .plain => state.pop block start .closed
  | .branch head own condition outer =>
    let branches := ⟨own, condition, block⟩ :: outer
    state.pop (chain branches (.block .absent [])) head (.branches branches)
  | .lastResort head branches => state.pop (chain branches block) head .closed
  | .loop own item source => state.pop (.loop (.spot own) item source block) own .closed
  | .function own name parameters =>
    state.pop (.function (.spot own) name parameters block) own .closed

/-- Reads a token that ends a construct before anything stands in it, or a block after a separator. -/
def closeEmpty (state : State) (token : Token) : Option State :=
  match state.mode, state.layer.context, token.kind with
  | .opening, .program _, .separator | .opening, .block .., .separator => some (state.expect .resumed)
  | _, .block start purpose done, .symbol .closeBrace => state.closeBlock start purpose done.reverse
  | .opening, .bracket start, .symbol .closeBracket => state.pop (.list (.spot start) []) start .closed
  | .opening, .bracket start, .symbol .colon => some (state.expect (.emptyDict start))
  | .opening, .arguments start name done, .symbol .closeParen =>
    state.pop (.call (.spot start) name done.reverse) start .closed
  | .opening, .print start newline, .symbol .closeParen =>
    state.pop (.print (.spot start) (.none .absent) newline) start .closed
  | _, _, _ => none

/-- Reads a token that begins an operand. -/
def beginOperand (state : State) (token : Token) : Option State :=
  let start := token.position
  match token.kind with
  | .int => some (state.give (.literal token.mark .int token.text) start .closed)
  | .float => some (state.give (.literal token.mark .float token.text) start .closed)
  | .string => some (state.give (.literal token.mark .string token.text) start .closed)
  | .name => some (state.give (.name token.mark token.text) start (.name token.text))
  | .keyword .kwTrue => some (state.give (.literal token.mark .bool "true") start .closed)
  | .keyword .kwFalse => some (state.give (.literal token.mark .bool "false") start .closed)
  | .keyword .kwNone => some (state.give (.none token.mark) start .closed)
  | .keyword .kwPrint => some (state.expect (.printParen start false))
  | .keyword .kwPrintln => some (state.expect (.printParen start true))
  | .keyword .kwIf => some (state.push (.condition start start []) .operand)
  | .keyword .kwFor => some (state.expect (.loopItem start))
  | .keyword .kwFn => some (state.expect (.functionName start))
  | .keyword .kwNot => if looserThan 3 state.layer.waiting then some (state.wait (.negate start)) else none
  | .symbol .minus => some (state.expect (.number start))
  | .symbol .openParen => some (state.push (.group start) .operand)
  | .symbol .openBracket => some (state.push (.bracket start) .opening)
  | .symbol .openBrace => some (state.push (.block start .plain []) .opening)
  | _ => none

/-- Reads a token that divides or ends the present construct after a whole expression. -/
def endExpression (state : State) (phrase : Phrase) (kind : Token.Kind) : Option State :=
  let expr := phrase.expr
  match state.layer.context, kind with
  | .program done, .separator => some (state.replace (.program (expr :: done)) .resumed)
  | .block start purpose done, .separator =>
    some (state.replace (.block start purpose (expr :: done)) .resumed)
  | .block start purpose done, .symbol .closeBrace =>
    state.closeBlock start purpose (expr :: done).reverse
  | .group start, .symbol .closeParen => state.pop expr start .closed
  | .subscript target, .symbol .closeBracket =>
    state.pop (.subscript (.spot target.start) target.expr expr) target.start
      (.subscript target.expr expr)
  | .bracket start, .symbol .comma => some (state.replace (.list start [expr]) .operand)
  | .bracket start, .symbol .closeBracket => state.pop (.list (.spot start) [expr]) start .closed
  | .bracket start, .symbol .colon => some (state.replace (.entry start [] expr) .operand)
  | .list start done, .symbol .comma => some (state.replace (.list start (expr :: done)) .operand)
  | .list start done, .symbol .closeBracket =>
    state.pop (.list (.spot start) (expr :: done).reverse) start .closed
  | .key start done, .symbol .colon => some (state.replace (.entry start done expr) .operand)
  | .entry start done key, .symbol .comma =>
    some (state.replace (.key start ((key, expr) :: done)) .operand)
  | .entry start done key, .symbol .closeBracket =>
    state.pop (.dict (.spot start) ((key, expr) :: done).reverse) start .closed
  | .arguments start name done, .symbol .comma =>
    some (state.replace (.arguments start name (expr :: done)) .operand)
  | .arguments start name done, .symbol .closeParen =>
    state.pop (.call (.spot start) name (expr :: done).reverse) start .closed
  | .print start newline, .symbol .closeParen =>
    state.pop (.print (.spot start) expr newline) start .closed
  | _, _ => none

/-- Opens the block after a whole condition or source of a loop. -/
def openBody (state : State) (phrase : Phrase) (token : Token) : Option State :=
  match state.layer.context with
  | .condition head start outer =>
    some (state.replace (.block token.position (.branch head start phrase.expr outer) []) .opening)
  | .source start item =>
    some (state.replace (.block token.position (.loop start item phrase.expr) []) .opening)
  | _ => none

/-- Reads an operator between two operands: what binds tighter on its left is completed first. -/
def joinWith (state : State) (operand : Operand) (joint : Joint) : Option State :=
  let level := if joint.chains then joint.level else joint.level + 1
  let (waiting, left) := settle level state.layer.waiting operand.toPhrase
  if joint.chains || looserThan (joint.level - 1) waiting then
    some ⟨.operand, ⟨state.layer.context, .join left.start joint left.expr :: waiting⟩, state.outer⟩
  else none

/-- Reads a token after an operand. -/
def continueOperand (state : State) (operand : Operand) (token : Token) : Option State :=
  match token.kind, operand.ending with
  | .symbol .openBracket, .signed => none
  | .symbol .openBracket, _ => some (state.push (.subscript operand.toPhrase) .operand)
  | .symbol .openParen, .name text => some (state.push (.arguments operand.start text []) .opening)
  | .symbol .assign, .name text =>
    if looserThan 0 state.layer.waiting then some (state.wait (.assign operand.start text)) else none
  | .symbol .assign, .subscript target index =>
    if looserThan 0 state.layer.waiting then some (state.wait (.store operand.start target index))
    else none
  | .keyword .kwElse, .branches branches => some (state.expect (.lastResort operand.start branches))
  | .symbol .openBrace, _ => state.openBody (state.settled operand) token
  | kind, _ =>
    match kind.joint? with
    | some joint => state.joinWith operand joint
    | none => state.endExpression (state.settled operand) kind

/-- The state after a token; none if the token cannot come next. -/
def step (state : State) (token : Token) : Option State :=
  match state.mode, token.kind with
  | .opening, _ | .resumed, _ => (state.beginOperand token).or (state.closeEmpty token)
  | .operand, _ => state.beginOperand token
  | .operator operand, _ => state.continueOperand operand token
  | .number start, .int => some (state.give (.literal (.spot start) .int ("-" ++ token.text)) start .signed)
  | .number start, .float =>
    some (state.give (.literal (.spot start) .float ("-" ++ token.text)) start .signed)
  | .printParen start newline, .symbol .openParen => some (state.push (.print start newline) .opening)
  | .emptyDict start, .symbol .closeBracket => state.pop (.dict (.spot start) []) start .closed
  | .lastResort head branches, .symbol .openBrace =>
    some (state.push (.block token.position (.lastResort head branches) []) .opening)
  | .lastResort head branches, .keyword .kwIf =>
    some (state.push (.condition head token.position branches) .operand)
  | .loopItem start, .name => some (state.expect (.loopIn start token.text))
  | .loopIn start item, .keyword .kwIn => some (state.push (.source start item) .operand)
  | .functionName start, .name => some (state.expect (.functionParen start token.text))
  | .functionParen start name, .symbol .openParen => some (state.expect (.firstParameter start name))
  | .firstParameter start name, .name => some (state.expect (.parameterEnd start name [token.text]))
  | .firstParameter start name, .symbol .closeParen => some (state.expect (.functionBody start name []))
  | .parameter start name done, .name =>
    some (state.expect (.parameterEnd start name (token.text :: done)))
  | .parameterEnd start name done, .symbol .comma => some (state.expect (.parameter start name done))
  | .parameterEnd start name done, .symbol .closeParen =>
    some (state.expect (.functionBody start name done.reverse))
  | .functionBody start name parameters, .symbol .openBrace =>
    some (state.push (.block token.position (.function start name parameters) []) .opening)
  | _, _ => none

/-- The statements of the program, if it may end here. -/
def finish (state : State) : Option (List Expr) :=
  match state.outer, state.layer.context, state.mode with
  | [], .program done, .opening | [], .program done, .resumed => some done.reverse
  | [], .program done, .operator operand => some ((state.settled operand).expr :: done).reverse
  | _, _, _ => none

end State

end Corvid.Parser
