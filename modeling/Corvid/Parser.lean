import Corvid.Parser.Step
import Corvid.Text.Quoted
import Corvid.Token.Lexer

/-!
From text to tree. The first thing that no program can go on with is reported: a token, a character that
starts no token, or the end of the text.
-/
namespace Corvid.Parser

inductive Error where
  | token (found : Token)
  | character (found : Token.Stray)
  /-- The text ends too early; the place is that of its last token. -/
  | ending (last : Position)
  deriving DecidableEq, Repr

namespace Error

def position : Error → Position
  | .token found => found.position
  | .character found => found.position
  | .ending last => last

def description : Error → String
  | .token found => "Unexpected token " ++ Text.quoted found.text
  | .character found => "Unexpected character " ++ Text.quoted (String.singleton found.char)
  | .ending _ => "Unexpected end of input"

def message (error : Error) : String :=
  let position := error.position
  error.description ++ s!" at line {position.line}, col {position.column}"

end Error

/-- Reads tokens from a state on; the first token without a next state is the error. -/
def advance : State → List Token → Except Token State
  | state, [] => .ok state
  | state, token :: rest =>
    match state.step token with
    | none => .error token
    | some next => advance next rest

/-- The place of the last token; a text without tokens never ends too early. -/
def lastPosition (tokens : List Token) : Position :=
  match tokens.getLast? with
  | some token => token.position
  | none => .start

/-- The mark of the whole program: its first token, which may be a separator. -/
def programMark (tokens : List Token) : Mark :=
  match tokens with
  | token :: _ => token.mark
  | [] => .absent

/-- The tree of a program that has been split into tokens. -/
def ofSplit (split : Token.Split) : Except Error Expr :=
  match advance .initial split.tokens, split.stray with
  | .error token, _ => .error (.token token)
  | .ok _, some stray => .error (.character stray)
  | .ok state, none =>
    match state.finish with
    | some body => .ok (.block (programMark split.tokens) body)
    | none => .error (.ending (lastPosition split.tokens))

/-- The tree of a program, a block of its statements. -/
def parse (source : String) : Except Error Expr := ofSplit (Token.split source)

end Corvid.Parser
