import Corvid.Proofs.Grammar.Soundness
import Corvid.Proofs.Token.Lexeme

/-!
What has been read without error can be completed. From every state that reading leads to, some tokens finish what has
been begun, then close the constructs one after the other, the innermost first, until the program may end. This needs
that the program is the outermost construct and that no other construct is one, which every step keeps.
-/
namespace Corvid

/-- Some text of each kind of token. -/
def Token.Kind.sample : Token.Kind → String
  | .name => "x"
  | .int => "0"
  | .float => "0.0"
  | .string => "\"\""
  | .separator => ";"
  | .keyword word => word.text
  | .symbol sign => sign.text

theorem Token.Kind.lexeme_sample {kind : Token.Kind} (solid : kind ≠ .separator) :
    Token.Lexeme kind kind.sample.toList := by
  have zero : Token.Digits ['0'] := ⟨by simp, List.forall_mem_singleton.mpr rfl⟩
  cases kind with
  | name => exact .name (by decide) (by simp) fun word => by cases word <;> decide
  | int => exact .int zero
  | float => exact .float zero zero .absent
  | string => exact .string .close
  | separator => exact absurd rfl solid
  | keyword word => exact .keyword word
  | symbol sign => exact .symbol sign

/-- Some token of each kind. -/
def Token.sample (kind : Token.Kind) : Token := ⟨kind, kind.sample, .start⟩

end Corvid

namespace Corvid.Grammar
open Parser

/-! The program is the outermost construct -/

def IsProgram : Context → Prop
  | .program _ => True
  | _ => False

/-- The last of the constructs around one another is a program, and no other one is. -/
def Rooted : Context → List Layer → Prop
  | context, [] => IsProgram context
  | context, layer :: outer => ¬IsProgram context ∧ Rooted layer.context outer

/-- How a step changes the constructs: it stays in the innermost one, or in one that follows it, or opens or closes
one. -/
inductive Shifts (state next : State) : Prop where
  | stays (outer : next.outer = state.outer)
      (alike : IsProgram next.layer.context ↔ IsProgram state.layer.context)
  | opens (outer : next.outer = state.layer :: state.outer) (inner : ¬IsProgram next.layer.context)
  | closes (outer : state.outer = next.layer :: next.outer)

section Steps

variable {state next : State} {token : Token}

theorem shifts_expect (mode : Mode) : Shifts state (state.expect mode) := .stays rfl Iff.rfl

theorem shifts_push {context : Context} (inner : ¬IsProgram context) (mode : Mode) :
    Shifts state (state.push context mode) := .opens rfl inner

theorem shifts_replace {context : Context} (alike : IsProgram context ↔ IsProgram state.layer.context) (mode : Mode) :
    Shifts state (state.replace context mode) := .stays rfl alike

theorem shifts_wait (operator : Waiting) : Shifts state (state.wait operator) := .stays rfl Iff.rfl

theorem shifts_pop {expr : Expr} {start : Position} {ending : Ending}
    (pops : state.pop expr start ending = some next) : Shifts state next := by
  unfold State.pop at pops
  split at pops
  · cases pops
  · next outer =>
    cases pops
    exact .closes outer

/-- A closed block is an operand, whatever its purpose. -/
theorem closeBlock_eq_pop (state : State) (start : Position) (purpose : Purpose) (body : List Expr) :
    ∃ expr first ending, state.closeBlock start purpose body = state.pop expr first ending := by
  cases purpose <;> exact ⟨_, _, _, rfl⟩

theorem shifts_closeBlock {start : Position} {purpose : Purpose} {body : List Expr}
    (closes : state.closeBlock start purpose body = some next) : Shifts state next := by
  obtain ⟨expr, first, ending, same⟩ := closeBlock_eq_pop state start purpose body
  rw [same] at closes
  exact shifts_pop closes

theorem shifts_closeEmpty (closes : state.closeEmpty token = some next) : Shifts state next := by
  cases closeEmpty_cases closes with
  | programLead | blockLead | dict => exact shifts_expect _
  | block _ _ closes => exact shifts_closeBlock closes
  | list _ _ _ pops | call _ _ _ pops | print _ _ _ pops => exact shifts_pop pops

theorem shifts_beginOperand (begins : state.beginOperand token = some next) : Shifts state next := by
  cases beginOperand_cases begins with
  | int | float | string | name | truth | falsity | nothing | print | println | loop | function | minus =>
    exact shifts_expect _
  | conditional | group | bracket | block => exact shifts_push id _
  | negate => exact shifts_wait _

theorem shifts_endExpression {phrase : Phrase} {kind : Token.Kind}
    (ends : state.endExpression phrase kind = some next) : Shifts state next := by
  cases endExpression_cases ends with
  | statement context | blockStatement context | firstItem context | firstKey context | item context | key context
  | pair context | argument context => exact shifts_replace (by rw [context]; exact Iff.rfl) _
  | block _ _ closes => exact shifts_closeBlock closes
  | group _ _ pops | subscript _ _ pops | onlyItem _ _ pops | lastItem _ _ pops | lastPair _ _ pops
  | lastArgument _ _ pops | print _ _ pops => exact shifts_pop pops

theorem shifts_openBody {phrase : Phrase} (opens : state.openBody phrase token = some next) :
    Shifts state next := by
  cases openBody_cases opens with
  | branch context | loop context => exact shifts_replace (by rw [context]; exact Iff.rfl) _

theorem shifts_joinWith {operand : Operand} {joint : Joint} (joined : state.joinWith operand joint = some next) :
    Shifts state next := by
  simp only [State.joinWith] at joined
  obtain ⟨_, same⟩ := Option.ite_none_right_eq_some.mp joined
  cases same
  exact .stays rfl Iff.rfl

theorem shifts_continueOperand {operand : Operand} (continues : state.continueOperand operand token = some next) :
    Shifts state next := by
  cases continueOperand_cases continues with
  | subscript | call => exact shifts_push id _
  | assign | store => exact shifts_wait _
  | otherwise => exact shifts_expect _
  | body _ opens => exact shifts_openBody opens
  | join _ joined => exact shifts_joinWith joined
  | ends ends => exact shifts_endExpression ends

theorem step_shifts (steps : state.step token = some next) : Shifts state next := by
  cases step_cases steps with
  | begins _ begins => exact shifts_beginOperand begins
  | closes _ closes => exact shifts_closeEmpty closes
  | continues _ continues => exact shifts_continueOperand continues
  | emptyDict _ _ pops => exact shifts_pop pops
  | print | lastBlock | elseIf | loopIn | functionBody => exact shifts_push id _
  | negativeInt | negativeFloat | loopItem | functionName | functionParen | firstParameter | noParameter | parameter
  | comma | lastParameter => exact shifts_expect _

/-- Every step keeps the program outermost. -/
theorem Shifts.rooted (shifts : Shifts state next) (rooted : Rooted state.layer.context state.outer) :
    Rooted next.layer.context next.outer := by
  cases shifts with
  | stays outer alike =>
    rw [outer]
    cases around : state.outer with
    | nil =>
      rw [around] at rooted
      exact alike.mpr rooted
    | cons layer others =>
      rw [around] at rooted
      exact ⟨fun program => rooted.1 (alike.mp program), rooted.2⟩
  | opens outer inner =>
    rw [outer]
    exact ⟨inner, rooted⟩
  | closes outer =>
    rw [outer] at rooted
    exact rooted.2

/-- The first step of tokens that are read without error. -/
theorem Leads.exists_step {rest : List Token} (leads : Leads state (token :: rest) next) :
    ∃ middle, state.step token = some middle ∧ Leads middle rest next := by
  simp only [Leads, advance] at leads
  split at leads
  · cases leads
  · next middle step => exact ⟨middle, step, leads⟩

/-- Tokens that are read without error are read one part after the other. -/
theorem Leads.exists_middle {front rest : List Token} (leads : Leads state (front ++ rest) next) :
    ∃ middle, Leads state front middle ∧ Leads middle rest next := by
  induction front generalizing state with
  | nil => exact ⟨state, .nil state, leads⟩
  | cons token front ih =>
    obtain ⟨following, step, later⟩ := leads.exists_step
    obtain ⟨middle, read, after⟩ := ih later
    exact ⟨middle, .cons step read, after⟩

theorem Leads.rooted {tokens : List Token} (leads : Leads state tokens next)
    (rooted : Rooted state.layer.context state.outer) : Rooted next.layer.context next.outer := by
  induction tokens generalizing state with
  | nil =>
    obtain rfl : state = next := Except.ok.inj leads
    exact rooted
  | cons token rest ih =>
    obtain ⟨middle, step, later⟩ := leads.exists_step
    exact ih later ((step_shifts step).rooted rooted)

end Steps

/-! Completing a program -/

/-- Some tokens lead from one state to the other. -/
def Proceeds (state next : State) : Prop :=
  ∃ kinds : List Token.Kind, Leads state (kinds.map Token.sample) next

namespace Proceeds

theorem trans {first second third : State} (proceeds : Proceeds first second) (proceeds' : Proceeds second third) :
    Proceeds first third := by
  obtain ⟨kinds, leads⟩ := proceeds
  obtain ⟨kinds', leads'⟩ := proceeds'
  refine ⟨kinds ++ kinds', ?_⟩
  rw [List.map_append]
  exact leads.append leads'

/-- A block in which nothing stands yet can be closed. -/
theorem block (start : Position) (purpose : Purpose) (layer : Layer) (outer : List Layer) :
    ∃ operand, Proceeds ⟨.opening, ⟨.block start purpose [], []⟩, layer :: outer⟩
      ⟨.operator operand, layer, outer⟩ := by
  cases purpose <;> exact ⟨_, [.symbol .closeBrace], rfl⟩

/-- What has been begun can be finished to an operand. -/
theorem operand (state : State) (filled : ∀ start, state.mode ≠ .emptyDict start) :
    ∃ operand, Proceeds state ⟨.operator operand, state.layer, state.outer⟩ := by
  obtain ⟨mode, layer, outer⟩ := state
  -- loops, functions and branches all end in a block
  have enclosed (kinds : List Token.Kind) {start : Position} {purpose : Purpose}
      (leads : Leads ⟨mode, layer, outer⟩ (kinds.map Token.sample)
        ⟨.opening, ⟨.block start purpose [], []⟩, layer :: outer⟩) :
      ∃ operand, Proceeds ⟨mode, layer, outer⟩ ⟨.operator operand, layer, outer⟩ := by
    obtain ⟨operand, closes⟩ := block start purpose layer outer
    exact ⟨operand, trans ⟨kinds, leads⟩ closes⟩
  cases mode with
  | opening | resumed | operand => exact ⟨_, [.name], rfl⟩
  | operator operand => exact ⟨operand, [], rfl⟩
  | number start => exact ⟨_, [.int], rfl⟩
  | printParen start newline => exact ⟨_, [.symbol .openParen, .symbol .closeParen], rfl⟩
  | emptyDict start => exact absurd rfl (filled start)
  | lastResort head branches => exact enclosed [.symbol .openBrace] rfl
  | loopItem start => exact enclosed [.name, .keyword .kwIn, .name, .symbol .openBrace] rfl
  | loopIn start item => exact enclosed [.keyword .kwIn, .name, .symbol .openBrace] rfl
  | functionName start =>
    exact enclosed [.name, .symbol .openParen, .symbol .closeParen, .symbol .openBrace] rfl
  | functionParen start name => exact enclosed [.symbol .openParen, .symbol .closeParen, .symbol .openBrace] rfl
  | firstParameter start name | parameterEnd start name done =>
    exact enclosed [.symbol .closeParen, .symbol .openBrace] rfl
  | parameter start name done => exact enclosed [.name, .symbol .closeParen, .symbol .openBrace] rfl
  | functionBody start name parameters => exact enclosed [.symbol .openBrace] rfl

/-- After a whole expression the construct around it can be closed. -/
theorem close (operand : Operand) {context : Context} (inner : ¬IsProgram context) (waiting : List Waiting)
    (layer : Layer) (outer : List Layer) :
    ∃ operand', Proceeds ⟨.operator operand, ⟨context, waiting⟩, layer :: outer⟩
      ⟨.operator operand', layer, outer⟩ := by
  have enclosed {start : Position} {purpose : Purpose}
      (leads : Leads ⟨.operator operand, ⟨context, waiting⟩, layer :: outer⟩ [.sample (.symbol .openBrace)]
        ⟨.opening, ⟨.block start purpose [], []⟩, layer :: outer⟩) :
      ∃ operand', Proceeds ⟨.operator operand, ⟨context, waiting⟩, layer :: outer⟩
        ⟨.operator operand', layer, outer⟩ := by
    obtain ⟨operand', closes⟩ := block start purpose layer outer
    exact ⟨operand', trans ⟨[.symbol .openBrace], leads⟩ closes⟩
  cases context with
  | program done => exact absurd trivial inner
  | block start purpose done => cases purpose <;> exact ⟨_, [.symbol .closeBrace], rfl⟩
  | group | arguments | print => exact ⟨_, [.symbol .closeParen], rfl⟩
  | subscript | bracket | list | entry => exact ⟨_, [.symbol .closeBracket], rfl⟩
  | key => exact ⟨_, [.symbol .colon, .name, .symbol .closeBracket], rfl⟩
  | condition | source => exact enclosed rfl

/-- After a whole expression the constructs around it can be closed one after the other, and then the program ends. -/
theorem finish (operand : Operand) (context : Context) (waiting : List Waiting) (outer : List Layer)
    (rooted : Rooted context outer) :
    ∃ next body, Proceeds ⟨.operator operand, ⟨context, waiting⟩, outer⟩ next ∧ next.finish = some body := by
  induction outer generalizing operand context waiting with
  | nil =>
    cases context with
    | program done => exact ⟨_, _, ⟨[], rfl⟩, rfl⟩
    | _ => exact absurd rooted id
  | cons layer outer ih =>
    obtain ⟨operand', closes⟩ := close operand rooted.1 waiting layer outer
    obtain ⟨next, body, proceeds, finishes⟩ := ih operand' layer.context layer.waiting rooted.2
    exact ⟨next, body, closes.trans proceeds, finishes⟩

/-- Whatever has been begun, the program can be completed. An empty dictionary stands in the bracket it closes. -/
theorem ending (state : State) (rooted : Rooted state.layer.context state.outer)
    (inner : ∀ start, state.mode = .emptyDict start → ¬IsProgram state.layer.context) :
    ∃ next body, Proceeds state next ∧ next.finish = some body := by
  by_cases filled : ∀ start, state.mode ≠ .emptyDict start
  · obtain ⟨operand, begins⟩ := operand state filled
    obtain ⟨next, body, ends, finishes⟩ := finish operand _ state.layer.waiting _ rooted
    exact ⟨next, body, begins.trans ends, finishes⟩
  · obtain ⟨start, mode⟩ := Classical.not_forall_not.mp filled
    obtain ⟨_, layer, outer⟩ := state
    subst mode
    cases outer with
    | nil => exact absurd rooted (inner start rfl)
    | cons around others =>
      obtain ⟨next, body, ends, finishes⟩ :=
        finish ⟨⟨.dict (.spot start) [], start⟩, .closed⟩ around.context around.waiting others rooted.2
      exact ⟨next, body, trans ⟨[.symbol .closeBracket], rfl⟩ ends, finishes⟩

end Proceeds

/-- Tokens that are read without error are the first of those of a program. -/
theorem exists_completion {tokens : List Token} {state : State} (leads : Leads .initial tokens state) :
    ∃ (kinds : List Token.Kind) (whole : Derivation .body), whole.tokens = tokens ++ kinds.map Token.sample := by
  have reached : Reached state tokens := advance_reached reached_initial leads
  have inner : ∀ start, state.mode = .emptyDict start → ¬IsProgram state.layer.context := by
    intro start mode
    obtain ⟨_, now, _, _, inside⟩ := reached
    obtain ⟨_, layer, outer⟩ := state
    subst mode
    cases inside with
    | emptyDict => exact id
    | begun _ _ begun => cases begun
  obtain ⟨next, body, ⟨kinds, more⟩, finishes⟩ := Proceeds.ending state (leads.rooted trivial) inner
  have whole : Reached next (tokens ++ kinds.map Token.sample) := advance_reached reached more
  obtain ⟨derivation, same, _⟩ := exists_derivation_of_finish whole finishes
  exact ⟨kinds, derivation, same⟩

end Corvid.Grammar
