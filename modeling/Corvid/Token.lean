import Corvid.Position

/-!
Tokens: the words of a source text. Keywords are reserved everywhere, also where only a name may stand.
-/
namespace Corvid

inductive Keyword where
  | kwOr | kwAnd | kwNot | kwTrue | kwFalse | kwNone | kwPrint | kwPrintln | kwIf | kwElse | kwFor | kwIn | kwFn
  deriving DecidableEq, Repr

inductive Symbol where
  | equal | notEqual | less | lessEqual | greater | greaterEqual
  | concat | range | plus | minus | times | divide
  | assign | comma | colon
  | openParen | closeParen | openBracket | closeBracket | openBrace | closeBrace
  deriving DecidableEq, Repr

namespace Token

inductive Kind where
  | name | int | float | string | separator
  | keyword (word : Keyword)
  | symbol (sign : Symbol)
  deriving DecidableEq, Repr

end Token

structure Token where
  kind : Token.Kind
  text : String
  position : Position
  deriving DecidableEq, Repr

/-- The mark of a node that begins at this token. -/
def Token.mark (token : Token) : Mark := .spot token.position

namespace Keyword

def text : Keyword → String
  | kwOr => "or"
  | kwAnd => "and"
  | kwNot => "not"
  | kwTrue => "true"
  | kwFalse => "false"
  | kwNone => "none"
  | kwPrint => "print"
  | kwPrintln => "println"
  | kwIf => "if"
  | kwElse => "else"
  | kwFor => "for"
  | kwIn => "in"
  | kwFn => "fn"

def all : List Keyword :=
  [kwOr, kwAnd, kwNot, kwTrue, kwFalse, kwNone, kwPrint, kwPrintln, kwIf, kwElse, kwFor, kwIn, kwFn]

/-- The keyword that a word spells, if it is reserved. -/
def ofWord? (word : List Char) : Option Keyword :=
  all.find? fun keyword => keyword.text.toList == word

end Keyword

namespace Symbol

def text : Symbol → String
  | equal => "=="
  | notEqual => "!="
  | lessEqual => "<="
  | greaterEqual => ">="
  | concat => "++"
  | range => ".."
  | assign => "="
  | less => "<"
  | greater => ">"
  | plus => "+"
  | minus => "-"
  | times => "*"
  | divide => "/"
  | comma => ","
  | colon => ":"
  | openParen => "("
  | closeParen => ")"
  | openBracket => "["
  | closeBracket => "]"
  | openBrace => "\x7b"
  | closeBrace => "\x7d"

/-- All symbols, those of two characters first. -/
def all : List Symbol :=
  [equal, notEqual, lessEqual, greaterEqual, concat, range, assign, less, greater, plus, minus, times,
    divide, comma, colon, openParen, closeParen, openBracket, closeBracket, openBrace, closeBrace]

/-- The longest symbol at the front of a text. -/
def at? (text : List Char) : Option Symbol :=
  all.find? fun symbol => symbol.text.toList.isPrefixOf text

end Symbol

end Corvid
